import RulePack.Proofs.Installation.Registering

/-!
# Installing twice

* `Disk.LinkFree` — a disk without links;
* `Installation.WholeConfig` — the configuration of a project has whole numbers;
* `Installation.wholeConfig_copyRules`, `Installation.wholeConfig_of_files` — it has them when the rules
  have been copied if it had them before;
* `Installation.register_again` — registering the same rules again changes nothing;
* `Installation.install_twice` — nor does installing them again, also where there are links;
* `Installation.install_again` — installing the same rules again where there are none;
* `Installation.install_again_of_isDirectory`, `Installation.install_again_of_files` — the same by what the
  configurations were before.
-/

namespace RulePack

/-- There are no links on the disk. -/
def Disk.LinkFree (d : Disk) : Prop := ∀ l target, d.entryAt l ≠ some (.link target)

/-- The registration that a second one with the same rules is: nothing is left to be added, and what
could not be updated still cannot. -/
def Registration.again : Registration → Registration
  | updated path _ | created path => updated path []
  | skipped path reason plugins => skipped path reason plugins

theorem Disk.linkFree_of_entries {d : Disk}
    (h : ∀ entry ∈ d.entries, ∀ target, entry.2 ≠ .link target) : d.LinkFree :=
  fun _ target he => h _ (mem_entries_of_entryAt he Entry.noConfusion) target rfl

namespace Installation

variable {i : Installation} {request : Request} {root dir : Path} {d : Disk} {copied : List Rule}

theorem rulesUnlinked_of_linkFree (h : d.LinkFree) : RulesUnlinked d :=
  fun r m => h (Text.bytes r.fileName :: m)

theorem configsUnlinked_of_linkFree (h : d.LinkFree) : ConfigsUnlinked d :=
  fun name _ m => h (Text.bytes name :: m)

/-- The configuration of a project, if it can be loaded, has whole numbers only. -/
def WholeConfig (root : Path) (d : Disk) : Prop :=
  ∀ path c, locateConfig root d = some path → loadConfig path d = .ok c → c.Whole

theorem WholeConfig.baseConfig (h : WholeConfig root d) {base : Config}
    (hbase : baseConfig root d = .ok base) : base.Whole := by
  rw [Installation.baseConfig] at hbase
  split at hbase
  · rename_i path hlocate
    exact h path base hlocate hbase
  · cases hbase
    exact Config.whole_initial _ _

/-- Copying rules into an existing project leaves its configuration as it was. -/
theorem wholeConfig_copyRules (hrules : RulesUnlinked d) (hlink : ConfigsUnlinked d)
    (hroot : d.isDirectory root = true) :
    WholeConfig root (i.copyRules dir d).disk ↔ WholeConfig root d := by
  have hsame := sameConfigs_copyRules i hrules hlink hroot dir
  rw [WholeConfig, WholeConfig, hsame.locate_eq]
  refine forall_congr' fun path => forall_congr' fun c => ?_
  refine imp_congr_right fun hlocate => ?_
  rw [hsame.load_eq hlocate]

/-- Every configuration file on the disk that can be loaded has whole numbers, wherever it lies. -/
def WholeFiles (d : Disk) : Prop :=
  ∀ name ∈ Config.fileNames, ∀ m bytes, d.entryAt (Text.bytes name :: m) = some (.file bytes) →
    ∀ text path c, Text.ofBytes? bytes = some text → Config.parse path text = .ok c → c.Whole

/-- Also a configuration that the path of the project leads to only since directories were made for
the rules was on the disk before. -/
theorem wholeConfig_of_files (hrules : RulesUnlinked d) (hconfigs : ConfigsUnlinked d)
    (hfiles : WholeFiles d) (dir : Path) : WholeConfig root (i.copyRules dir d).disk := by
  have hlink' := hconfigs.keeps (keeps_copyRules (i := i) hrules dir)
  intro path c hlocate hload
  obtain ⟨hfile, name, hname, rfl⟩ := locateConfig_eq_some hlocate
  obtain ⟨bytes, hread⟩ := Disk.isFile_iff.mp hfile
  obtain ⟨-, m, -, he⟩ := (Disk.readBytes_child_eq_ok (Config.isName_of_mem_fileNames hname)
    (hlink' name hname)).mp hread
  have hbefore := (entryAt_copyRules hrules dir fun r heq =>
    r.fileName_not_mem_fileNames (Text.bytes_injective heq ▸ hname)).mp he
  rw [loadConfig, Disk.readText, hread] at hload
  cases htext : Text.ofBytes? bytes with
  | none =>
    simp only [htext] at hload
    cases hload
  | some text =>
    simp only [htext] at hload
    exact hfiles name hname m bytes hbefore text _ c htext hload

/-- What cannot be loaded is skipped. -/
theorem Registers.skipped_of_baseConfig {plugins : List String} {d' : Disk} {failure : Failure}
    {result : Except Failure Registration} (h : Registers root plugins d d' result)
    (hbase : baseConfig root d = .error failure) :
    d' = d ∧ ∃ path reason, result = .ok (.skipped path reason plugins) := by
  rw [baseConfig] at hbase
  cases h with
  | updated hlocate hload =>
    rw [hlocate] at hbase
    cases hload.symm.trans hbase
  | skipped => exact ⟨rfl, _, _, rfl⟩
  | created hlocate =>
    rw [hlocate] at hbase
    cases hbase
  | failed hlocate =>
    rw [hlocate] at hbase
    cases hbase

/-- Registering the same rules again changes nothing. -/
theorem register_again (hlink : ConfigsUnlinked d) (hwhole : WholeConfig i.projectRoot d)
    (hnodup : copied.Nodup) {registration : Registration}
    (h : (i.register dir copied d).result = .ok registration) :
    (i.register dir copied (i.register dir copied d).disk).disk = (i.register dir copied d).disk
      ∧ (i.register dir copied (i.register dir copied d).disk).result
        = .ok registration.again := by
  have hregisters := registers i dir copied d
  cases hbase : baseConfig i.projectRoot d with
  | error failure =>
    obtain ⟨hdisk, path, reason, hskipped⟩ := hregisters.skipped_of_baseConfig hbase
    rw [hdisk, hdisk, h]
    cases h.symm.trans hskipped
    exact ⟨rfl, rfl⟩
  | ok base =>
    have hlink' := hlink.keeps (hregisters.keeps hlink).1
    rw [h] at hregisters
    obtain ⟨existing, -, hconfigured, hregistration⟩ := hregisters.configured hbase
      (hwhole.baseConfig hbase) (nodup_pluginsFor dir hnodup)
    have hagain := (registers i dir copied _).again hlink' hconfigured
      (Config.plugins_withPlugins base _) (Config.withPlugins_withPlugins base _ _)
      (PluginList.merge_again existing (pluginsFor dir copied))
    rw [hagain.1, hagain.2]
    refine ⟨rfl, ?_⟩
    rcases hregistration with ⟨added, rfl⟩ | rfl
    · rfl
    · rfl

theorem registerIf_again (hlink : ConfigsUnlinked d) (hwhole : WholeConfig i.projectRoot d)
    (hnodup : copied.Nodup) {registration : Option Registration}
    (h : (i.registerIf request copied d).result = .ok registration) :
    (i.registerIf request copied (i.registerIf request copied d).disk).disk
        = (i.registerIf request copied d).disk
      ∧ (i.registerIf request copied (i.registerIf request copied d).disk).result
        = .ok (registration.map Registration.again) := by
  cases hregister : request.register with
  | false =>
    simp only [registerIf_of_not_register hregister] at h ⊢
    cases h
    exact ⟨rfl, rfl⟩
  | true =>
    simp only [registerIf_of_register hregister] at h ⊢
    obtain ⟨registered, hresult, rfl⟩ := Run.map_result_eq_ok.mp h
    obtain ⟨hdisk, hagain⟩ := register_again hlink hwhole hnodup hresult
    exact ⟨hdisk, Run.map_result_eq_ok.mpr ⟨_, hagain, rfl⟩⟩

/-- What an installation has done is not done again, whatever links there are elsewhere. -/
theorem install_twice {report : Report} (hrules : RulesUnlinked d) (hconfigs : ConfigsUnlinked d)
    (hwhole : WholeConfig i.projectRoot (i.copyRules request.dir d).disk)
    (h : (i.install request d).result = .ok report) :
    (i.install request (i.install request d).disk).disk = (i.install request d).disk
      ∧ (i.install request (i.install request d).disk).result
        = .ok { report with registration := report.registration.map Registration.again } := by
  cases hcopy : (i.copyRules request.dir d).result with
  | error failure =>
    rw [(install_of_failure hcopy).2] at h
    cases h
  | ok copied =>
    have hkeeps := keeps_copyRules (i := i) hrules request.dir
    have hrules' := hrules.keeps hkeeps
    have hlink' := hconfigs.keeps hkeeps
    have hinstalled := installed_of_copyRules hrules hcopy
    have hnodup : copied.Nodup := hinstalled.copied_eq ▸ Rule.nodup_all.filter _
    -- what the first installation does
    obtain ⟨hdisk, hresult⟩ := install_of_copied hcopy
    rw [hresult] at h
    obtain ⟨registration, hregister, rfl⟩ := Run.map_result_eq_ok.mp h
    obtain ⟨hkept, hspared⟩ := keeps_registerIf hlink' i request copied
    -- what is left to be done by the second one
    obtain ⟨hstill, hcopied⟩ :=
      copyRules_of_installed (hrules'.keeps hkept) (hinstalled.mono hrules' hkept hspared)
    obtain ⟨hdisk', hresult'⟩ := install_of_copied hcopied
    obtain ⟨hsame, hagain⟩ := registerIf_again hlink' hwhole hnodup hregister
    rw [hdisk, hdisk', hresult', hstill]
    exact ⟨hsame, Run.map_result_eq_ok.mpr ⟨_, hagain, rfl⟩⟩

/-- **Installing the same rules again changes nothing.**  The second time the same rules are copied,
and no plugin is left to be added to the configuration.  The numbers of the configuration that is
found when the rules have been copied are to be whole. -/
theorem install_again {report : Report} (hlink : d.LinkFree)
    (hwhole : WholeConfig i.projectRoot (i.copyRules request.dir d).disk)
    (h : (i.install request d).result = .ok report) :
    (i.install request (i.install request d).disk).disk = (i.install request d).disk
      ∧ (i.install request (i.install request d).disk).result
        = .ok { report with registration := report.registration.map Registration.again } :=
  install_twice (rulesUnlinked_of_linkFree hlink) (configsUnlinked_of_linkFree hlink) hwhole h

/-- In a project that is there, the numbers of its configuration are to be whole at first. -/
theorem install_again_of_isDirectory {report : Report} (hrules : RulesUnlinked d)
    (hconfigs : ConfigsUnlinked d) (hroot : d.isDirectory i.projectRoot = true)
    (hwhole : WholeConfig i.projectRoot d) (h : (i.install request d).result = .ok report) :
    (i.install request (i.install request d).disk).disk = (i.install request d).disk
      ∧ (i.install request (i.install request d).disk).result
        = .ok { report with registration := report.registration.map Registration.again } :=
  install_twice hrules hconfigs ((wholeConfig_copyRules hrules hconfigs hroot).mpr hwhole) h

/-- Wherever the project lies, it is enough that all configurations have whole numbers at first. -/
theorem install_again_of_files {report : Report} (hrules : RulesUnlinked d)
    (hconfigs : ConfigsUnlinked d) (hfiles : WholeFiles d)
    (h : (i.install request d).result = .ok report) :
    (i.install request (i.install request d).disk).disk = (i.install request d).disk
      ∧ (i.install request (i.install request d).disk).result
        = .ok { report with registration := report.registration.map Registration.again } :=
  install_twice hrules hconfigs (wholeConfig_of_files hrules hconfigs hfiles request.dir) h

/-- A package that holds one rule, beside a project without a configuration. -/
def bareProject : Disk where
  workingDir := []
  entries :=
    [([Text.bytes "pack"], .directory),
      ([Text.bytes "rules", Text.bytes "pack"], .directory),
      ([Text.bytes "no-prop-mutation.grit", Text.bytes "rules", Text.bytes "pack"],
        .file (Text.bytes "language js\n")),
      ([Text.bytes "web"], .directory)]

theorem linkFree_bareProject : bareProject.LinkFree :=
  Disk.linkFree_of_entries (by simp [bareProject])

/-- The installation from that package into that project. -/
def bareInstallation : Installation := ⟨Catalog.ofRoot (Path.ofText "pack"), Path.ofText "web"⟩

theorem install_again_bareProject :
    bareProject.LinkFree
      ∧ WholeConfig (Path.ofText "web")
        (bareInstallation.copyRules Request.default.dir bareProject).disk
      ∧ (bareInstallation.install Request.default bareProject).result
        = .ok ⟨Path.ofText "biome-plugins", [.propMutation],
          ["./biome-plugins/no-prop-mutation.grit"], some (.created (Path.ofText "web/biome.json"))⟩
      ∧ (bareInstallation.install Request.default
          (bareInstallation.install Request.default bareProject).disk).result
        = .ok ⟨Path.ofText "biome-plugins", [.propMutation],
          ["./biome-plugins/no-prop-mutation.grit"],
          some (.updated (Path.ofText "web/biome.json") [])⟩ := by
  have hnone : locateConfig (Path.ofText "web")
      (bareInstallation.copyRules Request.default.dir bareProject).disk = none := by
    decide +kernel
  have hwhole : WholeConfig (Path.ofText "web")
      (bareInstallation.copyRules Request.default.dir bareProject).disk := by
    intro path c hlocate
    rw [hnone] at hlocate
    cases hlocate
  have hfirst : (bareInstallation.install Request.default bareProject).result
      = .ok ⟨Path.ofText "biome-plugins", [.propMutation],
        ["./biome-plugins/no-prop-mutation.grit"],
        some (.created (Path.ofText "web/biome.json"))⟩ :=
    toOption_eq_some.mp (by decide +kernel)
  exact ⟨linkFree_bareProject, hwhole, hfirst,
    (install_again linkFree_bareProject hwhole hfirst).2⟩

end Installation

end RulePack
