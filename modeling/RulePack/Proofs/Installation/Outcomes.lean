import RulePack.Proofs.Installation.Registering

/-!
# The outcomes of registering rules

* `Installation.ConfigAt` — the configuration file of a project;
* `Installation.Updating` — what becomes of a configuration that is there;
* `Installation.Creating` — what happens where there is none;
* `Installation.register_outcome` — registering rules does one of these, on any disk.
-/

namespace RulePack

namespace Installation

variable {root path : Path} {plugins : List String} {d d' : Disk} {c : Config}
  {result : Except Failure Registration}

/-! ### The configuration file of a project -/

/-- The configuration file of a project: `biome.json` if that is a file, or else `biome.jsonc`. -/
inductive ConfigAt (root : Path) (d : Disk) : Path → Prop
  | preferred : d.isFile (root.child "biome.json") = true → ConfigAt root d (root.child "biome.json")
  | other : d.isFile (root.child "biome.json") = false →
      d.isFile (root.child "biome.jsonc") = true → ConfigAt root d (root.child "biome.jsonc")

theorem locateConfig_of_configAt (h : ConfigAt root d path) : locateConfig root d = some path := by
  show List.find? d.isFile [root.child "biome.json", root.child "biome.jsonc"] = some path
  cases h with
  | preferred hfile => exact List.find?_cons_of_pos hfile
  | other hnone hfile =>
    rw [List.find?_cons_of_neg (by simp [hnone])]
    exact List.find?_cons_of_pos hfile

theorem locateConfig_of_not_isFile (hpreferred : d.isFile (root.child "biome.json") = false)
    (hother : d.isFile (root.child "biome.jsonc") = false) : locateConfig root d = none := by
  show List.find? d.isFile [root.child "biome.json", root.child "biome.jsonc"] = none
  simp [hpreferred, hother]

/-- A configuration is loaded from a file of text that is one. -/
theorem loadConfig_eq_ok_iff : loadConfig path d = .ok c
    ↔ ∃ text, d.readText path = .ok text ∧ Config.parse path text = .ok c := by
  rw [loadConfig]
  cases d.readText path with
  | error fault => simp
  | ok text => simp

/-! ### A configuration that is there -/

/-- What becomes of the configuration in a file when plugins are registered in it. -/
inductive Updating (path : Path) (plugins : List String) (d : Disk) :
    Disk → Except Failure Registration → Prop
  /-- It is replaced where it lies by the configuration with the new plugins, and nothing else is
  changed.  The plugins that are told are the new ones. -/
  | updated {text : String} {c : Config} {existing : List String} {l : Location}
      {old : List UInt8} : d.readText path = .ok text → Config.parse path text = .ok c →
      c.plugins = .ok existing → d.find path = .ok l → d.entryAt l = some (.file old) →
      Updating path plugins d
        (d.put l (.file (Text.bytes (c.withPlugins (existing ++ plugins).eraseDups).text)))
        (.ok (.updated path (plugins.filter (· ∉ existing)).eraseDups))
  /-- It is no configuration, and stays as it is. -/
  | skipped {failure : Failure} : loadConfig path d = .error failure →
      (∀ text c, d.readText path = .ok text → Config.parse path text ≠ .ok c) →
      Updating path plugins d d (.ok (.skipped path failure.message plugins))

theorem Registers.updating (h : Registers root plugins d d' result)
    (hlocate : locateConfig root d = some path) : Updating path plugins d d' result := by
  cases h with
  | @updated path' c existing _ hlocate' hload hplugins hwrite =>
    cases hlocate'.symm.trans hlocate
    obtain ⟨text, htext, hparse⟩ := loadConfig_eq_ok_iff.mp hload
    obtain ⟨l, old, hfind, he, hwrite'⟩ := Disk.write_of_isFile (locateConfig_eq_some hlocate).1
      (Text.bytes (c.withPlugins (PluginList.merge existing plugins)).text)
    cases hwrite'.symm.trans hwrite
    rw [PluginList.missing_merge, PluginList.merge_eq_eraseDups]
    exact .updated htext hparse hplugins hfind he
  | skipped hlocate' hload =>
    cases hlocate'.symm.trans hlocate
    refine .skipped hload fun text c htext hparse => ?_
    cases hload.symm.trans (loadConfig_eq_ok_iff.mpr ⟨text, htext, hparse⟩)
  | created hlocate' => cases hlocate'.symm.trans hlocate
  | failed hlocate' => cases hlocate'.symm.trans hlocate

/-! ### No configuration -/

/-- What happens when plugins are registered and there is no configuration at the path. -/
inductive Creating (path : Path) (plugins : List String) (d : Disk) :
    Disk → Except Failure Registration → Prop
  /-- A configuration is written where nothing was, to which the path leads then, and nothing else
  is changed.  It is the initial one for these plugins. -/
  | created {l : Location} : d.entryAt l = none →
      (d.put l (.file (Text.bytes (Config.initial path plugins).text))).find path = .ok l →
      loadConfig path (d.put l (.file (Text.bytes (Config.initial path plugins).text)))
        = .ok (Config.initial path plugins) →
      Creating path plugins d (d.put l (.file (Text.bytes (Config.initial path plugins).text)))
        (.ok (.created path))
  /-- The disk refuses the configuration and stays as it is. -/
  | failed {fault : Fault} :
      d.write path (Text.bytes (Config.initial path plugins).text) = .error fault →
      Creating path plugins d d (.error (.disk path fault))

/-- A configuration that has been written where none was. -/
theorem creating_of_write (hfile : d.isFile path = false)
    (hwrite : d.write path (Text.bytes (Config.initial path plugins).text) = .ok d') :
    Creating path plugins d d' (.ok (.created path)) := by
  have hload := Config.loadConfig_of_write (c := Config.initial path plugins)
    (Config.sound_initial path plugins) (Config.whole_initial path plugins) hwrite
  obtain ⟨l, htarget, rfl⟩ := Disk.write_eq_ok.mp hwrite
  refine .created ?_ (Disk.find_of_target htarget _) hload
  -- a file at the target would be a file at the path
  rcases Disk.find_or_vacant_of_target htarget with hfind | hnone
  · rcases Disk.vacant_or_file_of_target htarget with hnone | ⟨bytes, he⟩
    · exact hnone
    · rw [Disk.isFile_iff.mpr ⟨bytes, Disk.readBytes_eq_ok.mpr ⟨l, hfind, he⟩⟩] at hfile
      cases hfile
  · exact hnone

theorem Registers.creating (h : Registers root plugins d d' result)
    (hlocate : locateConfig root d = none)
    (hfile : d.isFile (Config.defaultPath root) = false) :
    Creating (Config.defaultPath root) plugins d d' result := by
  cases h with
  | updated hlocate' => cases hlocate'.symm.trans hlocate
  | skipped hlocate' => cases hlocate'.symm.trans hlocate
  | created _ hwrite => exact creating_of_write hfile hwrite
  | failed _ hwrite => exact .failed hwrite

/-! ### All outcomes -/

/-- **The outcomes of registering rules.**  Where the project has a configuration file, that is
updated, or skipped if it is no configuration, and there is no failure.  Where it has none, one is
made, or the disk refuses it and stays as it is.  Links may lie on the way to the file. -/
theorem register_outcome (i : Installation) (dir : Path) (rules : List Rule) (d : Disk) :
    (∀ path, ConfigAt i.projectRoot d path →
      Updating path (pluginsFor dir rules) d (i.register dir rules d).disk
        (i.register dir rules d).result)
    ∧ (d.isFile (i.projectRoot.child "biome.json") = false →
      d.isFile (i.projectRoot.child "biome.jsonc") = false →
      Creating (i.projectRoot.child "biome.json") (pluginsFor dir rules) d
        (i.register dir rules d).disk (i.register dir rules d).result) := by
  have hregisters := registers i dir rules d
  constructor
  · intro path hpath
    exact hregisters.updating (locateConfig_of_configAt hpath)
  · intro hpreferred hother
    exact hregisters.creating (locateConfig_of_not_isFile hpreferred hother) hpreferred

/-- Two projects that share a directory: the configuration of one is a link to a file in it, and that
of the other a link to a file that is not there. -/
def sharedProjects : Disk where
  workingDir := []
  entries :=
    [([Text.bytes "shared"], .directory),
      ([Text.bytes "base.json", Text.bytes "shared"], .file (Text.bytes "{}")),
      ([Text.bytes "web"], .directory),
      ([Text.bytes "biome.json", Text.bytes "web"], .link (Path.ofText "../shared/base.json")),
      ([Text.bytes "app"], .directory),
      ([Text.bytes "biome.json", Text.bytes "app"], .link (Path.ofText "../shared/app.json"))]

/-- The configuration behind the one link is updated, and the other one is made behind its link. -/
theorem register_outcome_sharedProjects :
    let web : Installation := ⟨Catalog.ofRoot (Path.ofText "pack"), Path.ofText "web"⟩
    let app : Installation := ⟨Catalog.ofRoot (Path.ofText "pack"), Path.ofText "app"⟩
    let dir := Path.ofText "lib"
    (ConfigAt web.projectRoot sharedProjects (web.projectRoot.child "biome.json")
      ∧ Updating (web.projectRoot.child "biome.json") ["./lib/no-prop-mutation.grit"] sharedProjects
        (web.register dir [.propMutation] sharedProjects).disk
        (web.register dir [.propMutation] sharedProjects).result)
    ∧ sharedProjects.isFile (app.projectRoot.child "biome.json") = false
    ∧ sharedProjects.isFile (app.projectRoot.child "biome.jsonc") = false
    ∧ Creating (app.projectRoot.child "biome.json") ["./lib/no-prop-mutation.grit"] sharedProjects
        (app.register dir [.propMutation] sharedProjects).disk
        (app.register dir [.propMutation] sharedProjects).result
    ∧ ((app.register dir [.propMutation] sharedProjects).disk.entryAt
        [Text.bytes "app.json", Text.bytes "shared"]).isSome = true := by
  intro web app dir
  have hplugins : pluginsFor dir [.propMutation] = ["./lib/no-prop-mutation.grit"] := by
    decide +kernel
  have hweb : ConfigAt web.projectRoot sharedProjects (web.projectRoot.child "biome.json") :=
    .preferred (by decide +kernel)
  have hpreferred : sharedProjects.isFile (app.projectRoot.child "biome.json") = false := by
    decide +kernel
  have hother : sharedProjects.isFile (app.projectRoot.child "biome.jsonc") = false := by
    decide +kernel
  have hupdating := (register_outcome web dir [.propMutation] sharedProjects).1 _ hweb
  have hcreating := (register_outcome app dir [.propMutation] sharedProjects).2 hpreferred hother
  rw [hplugins] at hupdating hcreating
  exact ⟨⟨hweb, hupdating⟩, hpreferred, hother, hcreating, by decide +kernel⟩

end Installation

end RulePack
