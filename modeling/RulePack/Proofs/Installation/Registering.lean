import RulePack.Proofs.Config.RoundTrip
import RulePack.Proofs.Disk.Reaching
import RulePack.Proofs.Installation.Copying
import RulePack.Proofs.Plugin.Merging

/-!
# Registering rules

* `Installation.SameConfigs` — the configuration files of a project have the same bytes;
* `Installation.sameConfigs_copyRules` — copying rules leaves them alone;
* `Installation.locateConfig_of_update`, `Installation.locateConfig_of_create` — where the
  configuration is found that has been written;
* `Installation.Registers`, `Installation.registers` — what registering rules can do;
* `Installation.Configured` — the configuration of a project;
* `Installation.configured_of_write` — a configuration that has been written is that of the project.
-/

namespace RulePack

/-- The path of the configuration in which rules were registered, or could not be. -/
def Registration.path : Registration → Path
  | updated path _ | created path | skipped path _ _ => path

namespace Installation

variable {root path : Path} {d d' : Disk} {plugins : List String}

/-- No link has the name of a configuration file. -/
def ConfigsUnlinked (d : Disk) : Prop := ∀ name ∈ Config.fileNames, d.Unlinked (Text.bytes name)

theorem ConfigsUnlinked.keeps (h : ConfigsUnlinked d) (hkeeps : d.Keeps d') : ConfigsUnlinked d' :=
  fun name hname => hkeeps.unlinked (h name hname)

/-! ### The configuration files of a project -/

/-- The same configuration files are there, with the same bytes. -/
def SameConfigs (root : Path) (d d' : Disk) : Prop :=
  ∀ name ∈ Config.fileNames, ∀ bytes,
    d'.readBytes (root.child name) = .ok bytes ↔ d.readBytes (root.child name) = .ok bytes

theorem SameConfigs.refl (root : Path) (d : Disk) : SameConfigs root d d :=
  fun _ _ _ => Iff.rfl

theorem SameConfigs.trans {d'' : Disk} (h : SameConfigs root d d') (h' : SameConfigs root d' d'') :
    SameConfigs root d d'' :=
  fun name hname bytes => (h' name hname bytes).trans (h name hname bytes)

theorem locateConfig_eq_some (h : locateConfig root d = some path) :
    d.isFile path = true ∧ ∃ name ∈ Config.fileNames, path = root.child name := by
  obtain ⟨name, hname, hpath⟩ := List.mem_map.mp (List.mem_of_find?_eq_some h)
  exact ⟨List.find?_some h, name, hname, hpath.symm⟩

theorem locateConfig_congr (h : ∀ name ∈ Config.fileNames,
      d'.isFile (root.child name) = d.isFile (root.child name)) :
    locateConfig root d' = locateConfig root d := by
  have hpreferred := h "biome.json" (by decide)
  have hother := h "biome.jsonc" (by decide)
  show List.find? d'.isFile [root.child "biome.json", root.child "biome.jsonc"]
    = List.find? d.isFile [root.child "biome.json", root.child "biome.jsonc"]
  simp only [List.find?, hpreferred, hother]

/-- The configuration of a project stays where it is when it is written. -/
theorem locateConfig_of_update (hlocate : locateConfig root d = some path) {bytes : List UInt8}
    (hwrite : d.write path bytes = .ok d') : locateConfig root d' = some path := by
  obtain ⟨l, old, -, he, hput⟩ := Disk.write_of_isFile (locateConfig_eq_some hlocate).1 bytes
  cases hput.symm.trans hwrite
  obtain ⟨hthere, hback⟩ := Disk.keeps_put_file he bytes
  rw [← hlocate]
  exact locateConfig_congr fun name _ =>
    Bool.eq_iff_iff.mpr ⟨Disk.isFile_of_keeps hback, Disk.isFile_of_keeps hthere⟩

/-- A new configuration is found at its place. -/
theorem locateConfig_of_create {bytes : List UInt8}
    (hwrite : d.write (Config.defaultPath root) bytes = .ok d') :
    locateConfig root d' = some (Config.defaultPath root) := by
  have hfile := Disk.isFile_iff.mpr ⟨_, Disk.readBytes_of_write hwrite⟩
  show List.find? d'.isFile [root.child "biome.json", root.child "biome.jsonc"] = _
  exact List.find?_cons_of_pos hfile

theorem SameConfigs.locate_eq (h : SameConfigs root d d') :
    locateConfig root d' = locateConfig root d := by
  exact locateConfig_congr fun name hname => Disk.isFile_congr (h name hname)

/-- The same configuration is loaded, or fails to be loaded for the same reason. -/
theorem SameConfigs.load_eq (h : SameConfigs root d d')
    (hlocate : locateConfig root d = some path) :
    loadConfig path d' = loadConfig path d := by
  obtain ⟨hfile, name, hname, rfl⟩ := locateConfig_eq_some hlocate
  obtain ⟨bytes, hread⟩ := Disk.isFile_iff.mp hfile
  have hread' := (h name hname bytes).mpr hread
  rw [loadConfig, loadConfig, Disk.readText, Disk.readText, hread, hread']

/-- Files that have the same bytes in the directory of the project are the same configurations. -/
theorem sameConfigs_of_entries (hlink : ConfigsUnlinked d) (hkeeps : d.Keeps d') {m : Location}
    (hm : d.dirOf root = some m) (h : ∀ name ∈ Config.fileNames, ∀ bytes,
      d'.entryAt (Text.bytes name :: m) = some (.file bytes)
        ↔ d.entryAt (Text.bytes name :: m) = some (.file bytes)) : SameConfigs root d d' := by
  intro name hname bytes
  exact Disk.readBytes_child_congr (Config.isName_of_mem_fileNames hname) (hlink name hname) hkeeps
    hm (h name hname bytes)

/-- Copying rules leaves the configurations of a project alone. -/
theorem sameConfigs_copyRules (i : Installation) (hrules : RulesUnlinked d)
    (hlink : ConfigsUnlinked d) (hroot : d.isDirectory root = true) (dir : Path) :
    SameConfigs root d (i.copyRules dir d).disk := by
  obtain ⟨-, m, hm⟩ := Disk.isDirectory_iff.mp hroot
  refine sameConfigs_of_entries hlink (keeps_copyRules hrules dir) hm fun name hname bytes => ?_
  refine entryAt_copyRules hrules dir fun r heq => ?_
  exact r.fileName_not_mem_fileNames (Text.bytes_injective heq ▸ hname)

/-! ### Registering -/

/-- What registering plugins in the configuration of a project can do: the disk that it leaves, and
its result. -/
inductive Registers (root : Path) (plugins : List String) (d : Disk) :
    Disk → Except Failure Registration → Prop
  | updated {path : Path} {c : Config} {existing : List String} {d' : Disk} :
      locateConfig root d = some path → loadConfig path d = .ok c → c.plugins = .ok existing →
      d.write path (Text.bytes (c.withPlugins (PluginList.merge existing plugins)).text) = .ok d' →
      Registers root plugins d d'
        (.ok (.updated path (PluginList.missing existing (PluginList.merge existing plugins))))
  | skipped {path : Path} {failure : Failure} :
      locateConfig root d = some path → loadConfig path d = .error failure →
      Registers root plugins d d (.ok (.skipped path failure.message plugins))
  | created {d' : Disk} :
      locateConfig root d = none →
      d.write (Config.defaultPath root)
        (Text.bytes (Config.initial (Config.defaultPath root) plugins).text) = .ok d' →
      Registers root plugins d d' (.ok (.created (Config.defaultPath root)))
  | failed {fault : Fault} :
      locateConfig root d = none →
      d.write (Config.defaultPath root)
        (Text.bytes (Config.initial (Config.defaultPath root) plugins).text) = .error fault →
      Registers root plugins d d (.error (.disk (Config.defaultPath root) fault))

theorem loadConfig_eq_ok {c : Config} (h : loadConfig path d = .ok c) :
    c.path = path ∧ c.Sound := by
  rw [loadConfig] at h
  split at h
  · cases h
  · exact ⟨(Config.parse_eq_ok.mp h).1, Config.sound_of_parse h⟩

theorem saveConfig_of_write {c : Config} (h : d.write c.path (Text.bytes c.text) = .ok d') :
    saveConfig c d = Run.done () d' := by
  rw [saveConfig, h]

theorem updateConfig_of_failure {failure : Failure} (h : loadConfig path d = .error failure)
    (plugins : List String) : updateConfig path plugins d = ⟨d, [], .error failure⟩ := by
  rw [updateConfig, h]

theorem updateConfig_of_write {c : Config} {existing : List String}
    (hload : loadConfig c.path d = .ok c) (hplugins : c.plugins = .ok existing)
    (hwrite : d.write c.path
      (Text.bytes (c.withPlugins (PluginList.merge existing plugins)).text) = .ok d') :
    (updateConfig c.path plugins d).disk = d' ∧ (updateConfig c.path plugins d).result
      = .ok (PluginList.missing existing (PluginList.merge existing plugins)) := by
  have hsave : saveConfig (c.withPlugins (PluginList.merge existing plugins)) d = Run.done () d' :=
    saveConfig_of_write hwrite
  rw [updateConfig, hload]
  simp only [Config.merge_of_plugins hplugins, hsave]
  exact ⟨rfl, rfl⟩

theorem registers (i : Installation) (dir : Path) (rules : List Rule) (d : Disk) :
    Registers i.projectRoot (pluginsFor dir rules) d (i.register dir rules d).disk
      (i.register dir rules d).result := by
  rw [register]
  cases hlocate : locateConfig i.projectRoot d with
  | none =>
    simp only [createConfig]
    cases hwrite : d.write (Config.defaultPath i.projectRoot) (Text.bytes
        (Config.initial (Config.defaultPath i.projectRoot) (pluginsFor dir rules)).text) with
    | error fault =>
      have hsave : saveConfig (Config.initial (Config.defaultPath i.projectRoot)
          (pluginsFor dir rules)) d
          = ⟨d, [], .error (.disk (Config.defaultPath i.projectRoot) fault)⟩ := by
        rw [saveConfig]
        simp only [Config.initial] at hwrite ⊢
        rw [hwrite]
      rw [hsave]
      exact .failed hlocate hwrite
    | ok d' =>
      rw [saveConfig_of_write hwrite]
      exact .created hlocate hwrite
  | some path =>
    cases hload : loadConfig path d with
    | error failure =>
      simp only [updateConfig_of_failure hload]
      exact .skipped hlocate hload
    | ok c =>
      obtain ⟨rfl, hsound⟩ := loadConfig_eq_ok hload
      obtain ⟨existing, hplugins⟩ := hsound.plugins
      obtain ⟨l, old, -, -, hwrite⟩ := Disk.write_of_isFile (locateConfig_eq_some hlocate).1
        (Text.bytes (c.withPlugins (PluginList.merge existing (pluginsFor dir rules))).text)
      obtain ⟨hdisk, hresult⟩ := updateConfig_of_write hload hplugins hwrite
      simp only [hresult, hdisk]
      exact .updated hlocate hload hplugins hwrite

/-! ### The configuration of a project -/

/-- The configuration of a project, as it was printed. -/
structure Configured (root : Path) (c : Config) (d : Disk) : Prop where
  locate : locateConfig root d = some c.path
  load : loadConfig c.path d = .ok c
  bytes : d.readBytes c.path = .ok (Text.bytes c.text)

/-- The configuration that plugins are added to: that of the project, or a new one. -/
def baseConfig (root : Path) (d : Disk) : Except Failure Config :=
  match locateConfig root d with
  | some path => loadConfig path d
  | none => .ok (Config.initial (Config.defaultPath root) [])

theorem Configured.baseConfig {c : Config} (h : Configured root c d) :
    baseConfig root d = .ok c := by
  rw [Installation.baseConfig, h.locate]
  exact h.load

theorem SameConfigs.baseConfig (h : SameConfigs root d d') :
    Installation.baseConfig root d' = Installation.baseConfig root d := by
  rw [Installation.baseConfig, Installation.baseConfig, h.locate_eq]
  cases hlocate : locateConfig root d with
  | none => rfl
  | some path => exact h.load_eq hlocate

theorem Configured.mono {c : Config} (h : Configured root c d) (hsame : SameConfigs root d d') :
    Configured root c d' := by
  obtain ⟨-, name, hname, hpath⟩ := locateConfig_eq_some h.locate
  refine ⟨hsame.locate_eq.trans h.locate, (hsame.load_eq h.locate).trans h.load, ?_⟩
  have hbytes := h.bytes
  rw [hpath] at hbytes ⊢
  exact (hsame name hname _).mpr hbytes

/-- A configuration that has been written to its place is that of the project. -/
theorem configured_of_write {c : Config} (hsound : c.Sound) (hwhole : c.Whole)
    (hlocate : locateConfig root d = some c.path
      ∨ locateConfig root d = none ∧ c.path = Config.defaultPath root)
    (hwrite : d.write c.path (Text.bytes c.text) = .ok d') : Configured root c d' := by
  refine ⟨?_, Config.loadConfig_of_write hsound hwhole hwrite, Disk.readBytes_of_write hwrite⟩
  rcases hlocate with hlocate | ⟨-, hpath⟩
  · exact locateConfig_of_update hlocate hwrite
  · rw [hpath] at hwrite ⊢
    exact locateConfig_of_create hwrite

/-! ### What registering does -/

theorem sound_of_baseConfig {base : Config} (h : baseConfig root d = .ok base) : base.Sound := by
  rw [baseConfig] at h
  split at h
  · exact (loadConfig_eq_ok h).2
  · cases h
    exact Config.sound_initial _ _

/-- Writing a configuration file leaves everything of another name alone. -/
theorem keeps_of_write (hlink : ConfigsUnlinked d) {name : String} (hname : name ∈ Config.fileNames)
    {bytes : List UInt8} (hwrite : d.write (root.child name) bytes = .ok d') :
    d.Keeps d' ∧ ∀ other, other ≠ Text.bytes name → d.Spares d' other := by
  have hok := Config.isName_of_mem_fileNames hname
  obtain ⟨-, m, -, he, rfl⟩ := (Disk.write_child_eq_ok hok (hlink name hname)).mp hwrite
  constructor
  · exact Disk.Keeps.put_file (by simpa [Disk.isDirectoryAt] using he) (hlink name hname m) bytes
  · intro other hother
    exact Disk.Spares.put hother m (.file bytes)

theorem Registers.keeps {result : Except Failure Registration} (hlink : ConfigsUnlinked d)
    (h : Registers root plugins d d' result) :
    d.Keeps d' ∧ ∀ r : Rule, d.Spares d' (Text.bytes r.fileName) := by
  have hrule : ∀ r : Rule, ∀ name ∈ Config.fileNames, Text.bytes r.fileName ≠ Text.bytes name := by
    intro r name hname heq
    exact r.fileName_not_mem_fileNames (Text.bytes_injective heq ▸ hname)
  cases h with
  | updated hlocate _ _ hwrite =>
    obtain ⟨-, name, hname, rfl⟩ := locateConfig_eq_some hlocate
    obtain ⟨hkeeps, hspares⟩ := keeps_of_write hlink hname hwrite
    exact ⟨hkeeps, fun r => hspares _ (hrule r name hname)⟩
  | created _ hwrite =>
    have hname : "biome.json" ∈ Config.fileNames := by decide
    obtain ⟨hkeeps, hspares⟩ := keeps_of_write hlink hname hwrite
    exact ⟨hkeeps, fun r => hspares _ (hrule r _ hname)⟩
  | skipped => exact ⟨Disk.Keeps.refl d, fun _ => Disk.Spares.refl d _⟩
  | failed => exact ⟨Disk.Keeps.refl d, fun _ => Disk.Spares.refl d _⟩

theorem keeps_registerIf (hlink : ConfigsUnlinked d) (i : Installation) (request : Request)
    (copied : List Rule) : d.Keeps (i.registerIf request copied d).disk
      ∧ ∀ r : Rule, d.Spares (i.registerIf request copied d).disk (Text.bytes r.fileName) := by
  cases hregister : request.register with
  | false =>
    rw [registerIf_of_not_register hregister]
    exact ⟨Disk.Keeps.refl d, fun _ => Disk.Spares.refl d _⟩
  | true =>
    rw [registerIf_of_register hregister]
    exact (registers i request.dir copied d).keeps hlink

theorem Registers.disk_of_error {failure : Failure}
    (h : Registers root plugins d d' (.error failure)) : d' = d := by
  cases h with
  | failed => rfl

/-- The plugins are added to the base configuration, which becomes that of the project. -/
theorem Registers.configured {registration : Registration} {base : Config}
    (h : Registers root plugins d d' (.ok registration))
    (hbase : baseConfig root d = .ok base) (hwhole : base.Whole) (hnodup : plugins.Nodup) :
    ∃ existing, base.plugins = .ok existing
      ∧ Configured root (base.withPlugins (PluginList.merge existing plugins)) d'
      ∧ ((∃ added, registration = .updated base.path added) ∨ registration = .created base.path) := by
  have hsound := sound_of_baseConfig hbase
  cases h with
  | @updated path c existing _ hlocate hload hplugins hwrite =>
    rw [baseConfig, hlocate] at hbase
    cases hload.symm.trans hbase
    obtain ⟨rfl, -⟩ := loadConfig_eq_ok hload
    have hsound' := Config.sound_withPlugins hsound (PluginList.merge existing plugins)
    have hwhole' := Config.whole_withPlugins hwhole (PluginList.merge existing plugins)
    exact ⟨existing, hplugins, configured_of_write hsound' hwhole' (Or.inl hlocate) hwrite,
      Or.inl ⟨_, rfl⟩⟩
  | skipped hlocate hload =>
    rw [baseConfig, hlocate] at hbase
    cases hload.symm.trans hbase
  | created hlocate hwrite =>
    rw [baseConfig, hlocate] at hbase
    cases hbase
    have hmerge : PluginList.merge [] plugins = plugins := by
      rw [PluginList.merge_eq_eraseDups, List.nil_append, PluginList.eraseDups_of_nodup hnodup]
    have hinitial : (Config.initial (Config.defaultPath root) []).withPlugins plugins
        = Config.initial (Config.defaultPath root) plugins := by
      simp [Config.withPlugins, Config.initial, Json.Members.insert, PluginList.field]
    refine ⟨[], ?_, ?_, Or.inr rfl⟩
    · exact Config.plugins_eq_ok.mpr (Config.pluginsOf_of_strings rfl)
    · rw [hmerge, hinitial]
      exact configured_of_write (Config.sound_initial _ _) (Config.whole_initial _ _)
        (Or.inr ⟨hlocate, rfl⟩) hwrite

/-- Registering plugins that the configuration has already changes nothing. -/
theorem Registers.again {result : Except Failure Registration} {c : Config} {existing : List String}
    (hlink : ConfigsUnlinked d) (hconfigured : Configured root c d)
    (hplugins : c.plugins = .ok existing) (hsame : c.withPlugins existing = c)
    (hmerge : PluginList.merge existing plugins = existing)
    (h : Registers root plugins d d' result) : d' = d ∧ result = .ok (.updated c.path []) := by
  have hlocated := hconfigured.locate
  cases h with
  | updated hlocate hload hplugins' hwrite =>
    cases hlocate.symm.trans hlocated
    cases hload.symm.trans hconfigured.load
    cases hplugins'.symm.trans hplugins
    rw [hmerge, hsame] at hwrite
    obtain ⟨-, name, hname, hpath⟩ := locateConfig_eq_some hlocate
    have hread := hconfigured.bytes
    rw [hpath] at hwrite hread
    have hstill := Disk.write_child_of_readBytes (Config.isName_of_mem_fileNames hname)
      (hlink name hname) hread
    cases hwrite.symm.trans hstill
    rw [hmerge, PluginList.missing_self]
    exact ⟨rfl, rfl⟩
  | skipped hlocate hload =>
    cases hlocate.symm.trans hlocated
    cases hload.symm.trans hconfigured.load
  | created hlocate => cases hlocate.symm.trans hlocated
  | failed hlocate => cases hlocate.symm.trans hlocated

end Installation

end RulePack
