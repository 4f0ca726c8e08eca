import RulePack.Proofs.Config.Rereading
import RulePack.Proofs.Installation.Repeated

/-!
# New and existing configurations

Rules are registered in a new configuration as they come, and in one that is there without
repetitions.

* `Installation.PluginsIn` — the plugins of the configuration in a file;
* `Registers.of_load`, `Registers.of_failure` — what registering does where there is a configuration;
* `Registers.creates`, `Registers.updates` — where the configuration of a project is found
  afterwards, and its plugins;
* `Installation.eraseDups_pluginsFor_iff` — both lists are the same if no rule is repeated;
* `Installation.plugins_of_register` — the plugins when rules have been registered, and when they
  have been registered twice.
-/

namespace RulePack

namespace Installation

variable {i : Installation} {root dir path : Path} {rules : List Rule} {d d' : Disk}
  {plugins existing : List String} {c : Config} {registration : Registration}
  {result : Except Failure Registration}

/-- The plugins of the configuration in a file: it has the text of a configuration with these
plugins, and what is loaded from it has the same ones. -/
structure PluginsIn (path : Path) (d : Disk) (plugins : List String) : Prop where
  text : ∃ c : Config, c.plugins = .ok plugins ∧ d.readBytes path = .ok (Text.bytes c.text)
  load : ∀ c, loadConfig path d = .ok c → c.plugins = .ok plugins

/-- A file has the plugins of the configuration that has been written to it. -/
theorem pluginsIn_of_write (hsound : c.Sound) (hplugins : c.plugins = .ok plugins)
    (hwrite : d.write path (Text.bytes c.text) = .ok d') : PluginsIn path d' plugins := by
  have hread := Disk.readBytes_of_write hwrite
  refine ⟨⟨c, hplugins, hread⟩, fun c' hload => ?_⟩
  rw [loadConfig, Disk.readText, hread] at hload
  simp only [Text.ofBytes?_bytes] at hload
  exact Config.plugins_of_parse_text hsound hplugins hload

/-! ### The plugins in it -/

/-- A new configuration has the plugins as they come, and can be loaded. -/
theorem Registers.creates (h : Registers root plugins d d' (.ok (.created path))) :
    locateConfig root d' = some path ∧ PluginsIn path d' plugins
      ∧ ∃ c, loadConfig path d' = .ok c := by
  cases h with
  | created hlocate hwrite =>
    have hsound := Config.sound_initial (Config.defaultPath root) plugins
    have hwhole := Config.whole_initial (Config.defaultPath root) plugins
    exact ⟨locateConfig_of_create hwrite,
      pluginsIn_of_write hsound (Config.plugins_eq_ok.mpr (Config.pluginsOf_of_strings rfl)) hwrite,
      _, Config.loadConfig_of_write hsound hwhole hwrite⟩

/-- What was updated was the configuration of the project. -/
theorem Registers.loads {added : List String}
    (h : Registers root plugins d d' (.ok (.updated path added))) :
    locateConfig root d = some path
      ∧ ∃ c existing, loadConfig path d = .ok c ∧ c.plugins = .ok existing := by
  cases h with
  | updated hlocate hload hplugins _ => exact ⟨hlocate, _, _, hload, hplugins⟩

/-- Where there is a configuration, it is written with the plugins added that it lacks. -/
theorem Registers.of_load (h : Registers root plugins d d' result)
    (hlocate : locateConfig root d = some path) (hload : loadConfig path d = .ok c)
    (hplugins : c.plugins = .ok existing) :
    d.write path (Text.bytes (c.withPlugins (PluginList.merge existing plugins)).text) = .ok d'
      ∧ result
        = .ok (.updated path (PluginList.missing existing (PluginList.merge existing plugins))) := by
  cases h with
  | updated hlocate' hload' hplugins' hwrite =>
    cases hlocate'.symm.trans hlocate
    cases hload'.symm.trans hload
    cases hplugins'.symm.trans hplugins
    exact ⟨hwrite, rfl⟩
  | skipped hlocate' hload' =>
    cases hlocate'.symm.trans hlocate
    cases hload'.symm.trans hload
  | created hlocate' => cases hlocate'.symm.trans hlocate
  | failed hlocate' => cases hlocate'.symm.trans hlocate

/-- A configuration that cannot be loaded is left as it is. -/
theorem Registers.of_failure {failure : Failure} (h : Registers root plugins d d' result)
    (hlocate : locateConfig root d = some path) (hload : loadConfig path d = .error failure) :
    result = .ok (.skipped path failure.message plugins) ∧ d' = d := by
  cases h with
  | updated hlocate' hload' =>
    cases hlocate'.symm.trans hlocate
    cases hload'.symm.trans hload
  | skipped hlocate' hload' =>
    cases hlocate'.symm.trans hlocate
    cases hload'.symm.trans hload
    exact ⟨rfl, rfl⟩
  | created hlocate' => cases hlocate'.symm.trans hlocate
  | failed hlocate' => cases hlocate'.symm.trans hlocate

/-- A configuration that is there has its own plugins first, and all of them once. -/
theorem Registers.updates (h : Registers root plugins d d' result)
    (hlocate : locateConfig root d = some path) (hload : loadConfig path d = .ok c)
    (hplugins : c.plugins = .ok existing) :
    locateConfig root d' = some path ∧ PluginsIn path d' (existing ++ plugins).eraseDups := by
  obtain ⟨hwrite, -⟩ := h.of_load hlocate hload hplugins
  have hsound := Config.sound_withPlugins (loadConfig_eq_ok hload).2
  rw [← PluginList.merge_eq_eraseDups]
  exact ⟨locateConfig_of_update hlocate hwrite,
    pluginsIn_of_write (hsound _) (Config.plugins_withPlugins c _) hwrite⟩

/-- Plugins that are there already make no difference, even if the configuration cannot be
loaded. -/
theorem Registers.keeps_plugins (h : Registers root plugins d d' result)
    (hlocate : locateConfig root d = some path) (hin : PluginsIn path d existing)
    (hsame : (existing ++ plugins).eraseDups = existing) : PluginsIn path d' existing := by
  cases hload : loadConfig path d with
  | ok c =>
    rw [← hsame]
    exact (h.updates hlocate hload (hin.load c hload)).2
  | error failure =>
    rw [(h.of_failure hlocate hload).2]
    exact hin

/-! ### Lists with repetitions -/

theorem eraseDups_append_self (paths : List String) :
    (paths ++ paths).eraseDups = paths.eraseDups := by
  have hagain := PluginList.merge_again [] paths
  rwa [PluginList.merge_merge, PluginList.merge_eq_eraseDups, PluginList.merge_eq_eraseDups,
    List.nil_append, List.nil_append] at hagain

theorem eraseDups_append_again (existing paths : List String) :
    ((existing ++ paths).eraseDups ++ paths).eraseDups = (existing ++ paths).eraseDups := by
  have hagain := PluginList.merge_again existing paths
  rwa [PluginList.merge_eq_eraseDups, PluginList.merge_eq_eraseDups] at hagain

/-- No plugin path is repeated if no rule is, and only then. -/
theorem eraseDups_pluginsFor_iff :
    (pluginsFor dir rules).eraseDups = pluginsFor dir rules ↔ rules.Nodup := by
  constructor
  · intro h
    have hnodup := PluginList.nodup_eraseDups (pluginsFor dir rules)
    rw [h] at hnodup
    exact List.Pairwise.of_map _ (fun _ _ hne heq => hne (congrArg _ heq)) hnodup
  · intro h
    exact PluginList.eraseDups_of_nodup (nodup_pluginsFor dir h)

/-! ### Registering once and twice -/

/-- **A new configuration repeats what is repeated, one that is there does not.**  Rules that are
registered in a new configuration are listed as they come; registering them again drops the
repetitions.  Where there is a configuration, its plugins and the new ones are listed once each, and
registering the rules again leaves the list as it is.  For an empty list of plugins both agree
exactly if no rule is repeated. -/
theorem plugins_of_register (h : (i.register dir rules d).result = .ok registration) :
    let once := (i.register dir rules d).disk
    let twice := (i.register dir rules once).disk
    (∀ path, registration = .created path →
      PluginsIn path once (pluginsFor dir rules)
        ∧ PluginsIn path twice (pluginsFor dir rules).eraseDups)
    ∧ (∀ path added, registration = .updated path added → ∃ c existing,
      loadConfig path d = .ok c ∧ c.plugins = .ok existing
        ∧ PluginsIn path once (existing ++ pluginsFor dir rules).eraseDups
        ∧ PluginsIn path twice (existing ++ pluginsFor dir rules).eraseDups)
    ∧ ((pluginsFor dir rules).eraseDups = pluginsFor dir rules ↔ rules.Nodup) := by
  intro once twice
  have honce := registers i dir rules d
  have htwice := registers i dir rules once
  rw [h] at honce
  refine ⟨?_, ?_, eraseDups_pluginsFor_iff⟩
  · rintro path rfl
    obtain ⟨hlocate, hin, c, hload⟩ := honce.creates
    obtain ⟨-, hagain⟩ := htwice.updates hlocate hload (hin.load c hload)
    rw [eraseDups_append_self] at hagain
    exact ⟨hin, hagain⟩
  · rintro path added rfl
    obtain ⟨hlocate, c, existing, hload, hplugins⟩ := honce.loads
    obtain ⟨hlocate', hin⟩ := honce.updates hlocate hload hplugins
    exact ⟨c, existing, hload, hplugins, hin,
      htwice.keeps_plugins hlocate' hin (eraseDups_append_again existing _)⟩

/-- A rule that is registered twice in a project without a configuration. -/
theorem plugins_of_register_bareProject :
    (bareInstallation.register (Path.ofText "lib") [.propMutation, .propMutation]
        bareProject).result = .ok (.created (Path.ofText "web/biome.json"))
      ∧ PluginsIn (Path.ofText "web/biome.json")
          (bareInstallation.register (Path.ofText "lib") [.propMutation, .propMutation]
            (bareInstallation.register (Path.ofText "lib") [.propMutation, .propMutation]
              bareProject).disk).disk ["./lib/no-prop-mutation.grit"] := by
  have hresult : (bareInstallation.register (Path.ofText "lib") [.propMutation, .propMutation]
      bareProject).result = .ok (.created (Path.ofText "web/biome.json")) :=
    toOption_eq_some.mp (by decide +kernel)
  have hlist : (pluginsFor (Path.ofText "lib") [.propMutation, .propMutation]).eraseDups
      = ["./lib/no-prop-mutation.grit"] := by
    decide +kernel
  obtain ⟨-, htwice⟩ := (plugins_of_register hresult).1 _ rfl
  rw [hlist] at htwice
  exact ⟨hresult, htwice⟩

/-- The new configuration lists the rule twice. -/
theorem repeated_plugins_bareProject :
    (bareInstallation.register (Path.ofText "lib") [.propMutation, .propMutation]
        bareProject).result = .ok (.created (Path.ofText "web/biome.json"))
      ∧ PluginsIn (Path.ofText "web/biome.json")
          (bareInstallation.register (Path.ofText "lib") [.propMutation, .propMutation]
            bareProject).disk ["./lib/no-prop-mutation.grit", "./lib/no-prop-mutation.grit"] := by
  have hresult : (bareInstallation.register (Path.ofText "lib") [.propMutation, .propMutation]
      bareProject).result = .ok (.created (Path.ofText "web/biome.json")) :=
    toOption_eq_some.mp (by decide +kernel)
  have hlist : pluginsFor (Path.ofText "lib") [.propMutation, .propMutation]
      = ["./lib/no-prop-mutation.grit", "./lib/no-prop-mutation.grit"] := by
    decide +kernel
  have hregisters := registers bareInstallation (Path.ofText "lib")
    [.propMutation, .propMutation] bareProject
  rw [hresult, hlist] at hregisters
  exact ⟨hresult, hregisters.creates.2.1⟩

end Installation

end RulePack
