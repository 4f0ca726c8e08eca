import RulePack.Installation
import RulePack.Proofs.Comment.Printed
import RulePack.Proofs.Disk.Keeping

/-!
# Configurations are read back from their texts

* `Config.parse_eq_ok` — the texts that are configurations;
* `Config.Sound` — what reading a text ensures, and what merging plugins keeps;
* `Config.parse_text` — a sound configuration is read back from its text;
* `Config.Reachable` — the configurations that reading, making and merging give;
* `Config.parse_text_of_reachable` — each of them is read back from its text, and from its file after
  it has been saved.
-/

namespace RulePack

namespace Config

open Json

/-! ### The plugins among the members -/

theorem entries_map_string (texts : List String) : entries (texts.map Json.string) = .ok texts := by
  induction texts with
  | nil => rfl
  | cons s rest ih =>
    rw [List.map_cons, entries, ih]
    rfl

theorem pluginsOf_of_strings {members : Members} {plugins : List String}
    (h : members.get? PluginList.field = some (Json.strings plugins)) :
    pluginsOf members = .ok plugins := by
  rw [pluginsOf, h]
  exact entries_map_string plugins

theorem pluginsOf_insert (members : Members) (plugins : List String) :
    pluginsOf (members.insert PluginList.field (Json.strings plugins)) = .ok plugins :=
  pluginsOf_of_strings (Members.get?_insert_self _ _ members)

theorem plugins_eq_ok {c : Config} {plugins : List String} :
    c.plugins = .ok plugins ↔ pluginsOf c.members = .ok plugins := by
  rw [Config.plugins]
  cases pluginsOf c.members with
  | error problem =>
    constructor
    · intro h
      cases h
    · intro h
      cases h
  | ok found =>
    constructor
    · intro h
      cases h
      rfl
    · intro h
      cases h
      rfl

theorem plugins_withPlugins (c : Config) (plugins : List String) :
    (c.withPlugins plugins).plugins = .ok plugins :=
  plugins_eq_ok.mpr (pluginsOf_insert c.members plugins)

theorem withPlugins_withPlugins (c : Config) (plugins plugins' : List String) :
    (c.withPlugins plugins).withPlugins plugins' = c.withPlugins plugins' := by
  rw [withPlugins, withPlugins, withPlugins, Members.insert_insert]

/-- A text is a configuration if, without its comments, it is an object with a list of plugins. -/
theorem parse_eq_ok {path : Path} {text : String} {c : Config} :
    parse path text = .ok c
      ↔ c.path = path ∧ read (Comment.strip text) = .ok (.object c.members)
        ∧ ∃ plugins, c.plugins = .ok plugins := by
  simp only [plugins_eq_ok]
  constructor
  · intro h
    rw [parse, parseMembers] at h
    cases hread : read (Comment.strip text) with
    | error refusal =>
      rw [hread] at h
      cases h
    | ok v =>
      cases v with
      | object members =>
        simp only [hread] at h
        cases hplugins : pluginsOf members with
        | error problem =>
          rw [hplugins] at h
          cases h
        | ok plugins =>
          rw [hplugins] at h
          cases h
          exact ⟨rfl, rfl, plugins, hplugins⟩
      | _ =>
        rw [hread] at h
        cases h
  · rintro ⟨rfl, hread, plugins, hplugins⟩
    rw [parse, parseMembers]
    simp only [hread, hplugins]
    rfl

/-- What a text is read as, by its keys and its plugins. -/
theorem exists_parse_of_map {path : Path} {text : String} {keys plugins : List String}
    (h : ((parse path text).toOption.map fun c => (c.members.keys, c.plugins.toOption))
      = some (keys, some plugins)) :
    ∃ c, parse path text = .ok c ∧ c.members.keys = keys ∧ c.plugins = .ok plugins := by
  obtain ⟨c, hc, hpair⟩ := Option.map_eq_some_iff.mp h
  obtain ⟨hkeys, hplugins⟩ := Prod.mk.inj hpair
  exact ⟨c, toOption_eq_some.mp hc, hkeys, toOption_eq_some.mp hplugins⟩

theorem merge_of_plugins {c : Config} {plugins : List String} (h : c.plugins = .ok plugins)
    (more : List String) :
    c.merge more = .ok (c.withPlugins (PluginList.merge plugins more),
      PluginList.missing plugins (PluginList.merge plugins more)) := by
  rw [merge, h]

/-! ### What reading ensures -/

/-- The numbers of a configuration are whole numbers of 64 bits. -/
def Whole (c : Config) : Prop := Json.Whole (.object c.members)

/-- No key stands twice, values are not nested too deeply, and the plugins are texts. -/
structure Sound (c : Config) : Prop where
  fits : Fits depthLimit (.object c.members)
  plugins : ∃ plugins, c.plugins = .ok plugins

theorem read_fits {text : String} {v : Json} (h : Json.read text = .ok v) : Fits depthLimit v := by
  rw [Json.read, readAll] at h
  cases hvalue : value depthLimit text.toList with
  | error stop =>
    rw [hvalue] at h
    cases h
  | ok found =>
    obtain ⟨w, rest⟩ := found
    simp only [hvalue] at h
    split at h
    · cases h
      exact value_fits depthLimit _ _ _ hvalue
    · cases h

theorem sound_of_parse {path : Path} {text : String} {c : Config} (h : parse path text = .ok c) :
    c.Sound := by
  obtain ⟨-, hread, hplugins⟩ := parse_eq_ok.mp h
  exact ⟨read_fits hread, hplugins⟩

theorem sound_withPlugins {c : Config} (h : c.Sound) (plugins : List String) :
    (c.withPlugins plugins).Sound := by
  refine ⟨?_, plugins, plugins_withPlugins c plugins⟩
  cases h.fits with
  | object hkeys hparts =>
    refine .object (Members.nodup_keys_insert hkeys _ _) fun m hm => ?_
    rcases Members.mem_insert hm with hold | rfl
    · exact hparts m hold
    · exact (strings_fits plugins).mono (by decide)

theorem whole_withPlugins {c : Config} (h : c.Whole) (plugins : List String) :
    (c.withPlugins plugins).Whole := by
  cases h with
  | object hparts =>
    refine .object fun m hm => ?_
    rcases Members.mem_insert hm with hold | rfl
    · exact hparts m hold
    · exact strings_whole plugins

theorem sound_initial (path : Path) (plugins : List String) : (initial path plugins).Sound := by
  have hrules : Fits 1 (.object [("recommended", .bool true)]) :=
    .object (by decide) (by simpa using .bool true)
  have hlinter : Fits 2 (.object [("enabled", .bool true),
      ("rules", .object [("recommended", .bool true)])]) :=
    .object (by decide) (by simpa using ⟨.bool true, hrules⟩)
  have hmembers : ∀ m ∈ (initial path plugins).members, Fits 2 m.2 := by
    simpa [initial] using ⟨.string schema, (strings_fits plugins).mono (by decide), hlinter⟩
  have hkeys : (initial path plugins).members.keys.Nodup := by
    show ["$schema", PluginList.field, "linter"].Nodup
    decide
  exact ⟨(Fits.object hkeys hmembers).mono (by decide), plugins,
    plugins_eq_ok.mpr (pluginsOf_of_strings rfl)⟩

theorem whole_initial (path : Path) (plugins : List String) : (initial path plugins).Whole := by
  have hrules : Json.Whole (.object [("recommended", .bool true)]) :=
    .object (by simpa using .bool true)
  have hlinter : Json.Whole (.object [("enabled", .bool true),
      ("rules", .object [("recommended", .bool true)])]) :=
    .object (by simpa using ⟨.bool true, hrules⟩)
  exact .object (by simpa [initial] using ⟨.string schema, strings_whole plugins, hlinter⟩)

/-! ### Reading back -/

/-- A sound configuration is read back from its text. -/
theorem parse_text {c : Config} (h : c.Sound) (hwhole : c.Whole) : parse c.path c.text = .ok c := by
  refine parse_eq_ok.mpr ⟨rfl, ?_, h.plugins⟩
  rw [text, Comment.strip_render_newline h.fits]
  exact read_render_newline h.fits hwhole

/-- What is written is loaded. -/
theorem loadConfig_of_write {c : Config} (h : c.Sound) (hwhole : c.Whole) {d d' : Disk}
    (hwrite : d.write c.path (Text.bytes c.text) = .ok d') :
    Installation.loadConfig c.path d' = .ok c := by
  rw [Installation.loadConfig, Disk.readText, Disk.readBytes_of_write hwrite]
  simp only [Text.ofBytes?_bytes]
  exact parse_text h hwhole

/-- What is saved is loaded. -/
theorem loadConfig_saveConfig {c : Config} (h : c.Sound) (hwhole : c.Whole) {d : Disk}
    (hsave : (Installation.saveConfig c d).result = .ok ()) :
    Installation.loadConfig c.path (Installation.saveConfig c d).disk = .ok c := by
  rw [Installation.saveConfig] at hsave ⊢
  cases hwrite : d.write c.path (Text.bytes c.text) with
  | error fault =>
    rw [hwrite] at hsave
    cases hsave
  | ok written => exact loadConfig_of_write h hwhole hwrite

/-- Configurations that are read or made, with plugins merged into them any number of times. -/
inductive Reachable : Config → Prop
  | parsed {path : Path} {text : String} {c : Config} : parse path text = .ok c → Reachable c
  | initial (path : Path) (plugins : List String) : Reachable (initial path plugins)
  | merged {c c' : Config} {more added : List String} :
      Reachable c → c.merge more = .ok (c', added) → Reachable c'

theorem Reachable.sound {c : Config} (h : Reachable c) : c.Sound := by
  induction h with
  | parsed h => exact sound_of_parse h
  | initial path plugins => exact sound_initial path plugins
  | merged _ hmerge ih =>
    obtain ⟨plugins, hplugins⟩ := ih.plugins
    rw [merge_of_plugins hplugins] at hmerge
    cases hmerge
    exact sound_withPlugins ih _

/-- **Every configuration with whole numbers is read back from its text**, with all members in their
order, so that it is printed the same again and a file it is saved to gives it back. -/
theorem parse_text_of_reachable {c : Config} (h : Reachable c) (hwhole : c.Whole) :
    parse c.path c.text = .ok c
      ∧ (parse c.path c.text).map text = .ok c.text
      ∧ ∀ d : Disk, (Installation.saveConfig c d).result = .ok () →
        Installation.loadConfig c.path (Installation.saveConfig c d).disk = .ok c := by
  have hparse := parse_text h.sound hwhole
  refine ⟨hparse, ?_, fun d hsave => loadConfig_saveConfig h.sound hwhole hsave⟩
  rw [hparse]
  rfl

/-- A configuration with texts in which there is what looks like a comment, a quote or a backslash,
and with the least number of 64 bits. -/
def commented : Config :=
  ⟨Path.ofText "biome.jsonc",
    [("files", .object [("// max", .number (.whole (-9223372036854775808)))]),
      (PluginList.field, Json.strings ["./a//\"b\\.grit"])]⟩

theorem parse_text_commented :
    commented.Whole ∧ Reachable (commented.withPlugins ["./a//\"b\\.grit", "./c/*d\n.grit"])
      ∧ parse (Path.ofText "biome.jsonc")
          (commented.withPlugins ["./a//\"b\\.grit", "./c/*d\n.grit"]).text
        = .ok (commented.withPlugins ["./a//\"b\\.grit", "./c/*d\n.grit"]) := by
  have hplugins : commented.plugins = .ok ["./a//\"b\\.grit"] :=
    plugins_eq_ok.mpr (pluginsOf_of_strings rfl)
  have hnumber : Json.Whole (.object [("// max", .number (.whole (-9223372036854775808)))]) :=
    .object (by simpa using .number (by decide) (by decide))
  have hwhole : commented.Whole :=
    .object (by simpa [commented] using ⟨hnumber, strings_whole _⟩)
  have hfiles : Fits 2 (.object [("// max", .number (.whole (-9223372036854775808)))]) :=
    .object (by decide) (by simpa using .number _)
  have hmembers : ∀ m ∈ commented.members, Fits 2 m.2 := by
    simpa [commented] using ⟨hfiles, (strings_fits ["./a//\"b\\.grit"]).mono (by decide)⟩
  have hkeys : commented.members.keys.Nodup := by
    show ["files", PluginList.field].Nodup
    decide
  have hsound : commented.Sound := ⟨(Fits.object hkeys hmembers).mono (by decide), _, hplugins⟩
  have hmerge : PluginList.merge ["./a//\"b\\.grit"] ["./c/*d\n.grit"]
      = ["./a//\"b\\.grit", "./c/*d\n.grit"] := by decide
  have hreachable := Reachable.merged (.parsed (parse_text hsound hwhole))
    (merge_of_plugins hplugins ["./c/*d\n.grit"])
  rw [hmerge] at hreachable
  exact ⟨hwhole, hreachable, (parse_text_of_reachable hreachable (whole_withPlugins hwhole _)).1⟩

end Config

end RulePack
