import RulePack.Proofs.Config.RoundTrip
import RulePack.Proofs.Json.Documents

/-!
# Which texts are configurations, and that they stay such

* `Config.Lists` — members with the plugins that they list;
* `Config.pluginsOf_eq_ok_iff` — the plugins of members are those that they list;
* `Config.Revision`, `Config.reviseAll` — merging and reading back, any number of times;
* `Config.validity_law` — which texts are configurations, what the others are refused with, and that
  the plugins of a configuration are found and can be added to, however it has been revised.
-/

namespace RulePack

open Json

/-- A key has no value exactly if it is not there. -/
theorem Json.Members.get?_eq_none_iff {ms : Members} {key : String} :
    ms.get? key = none ↔ key ∉ ms.keys := by
  induction ms with
  | nil => simp [Members.get?, Members.keys]
  | cons m ms ih =>
    obtain ⟨k, v⟩ := m
    simp only [Members.keys] at ih
    by_cases hk : k = key
    · simp [Members.get?, Members.keys, hk]
    · simp [Members.get?, Members.keys, hk, Ne.symm hk, ih]

namespace Config

/-! ### Members that list plugins -/

/-- Members list plugins as an array of strings.  Without that member, or where it is null, they
list none. -/
inductive Lists (members : Members) : List String → Prop
  | absent (h : PluginList.field ∉ members.keys) : Lists members []
  | null (h : members.get? PluginList.field = some .null) : Lists members []
  | array {plugins : List String}
    (h : members.get? PluginList.field = some (.array (plugins.map .string))) :
    Lists members plugins

theorem eq_map_of_entries {vs : List Json} {texts : List String} (h : entries vs = .ok texts) :
    vs = texts.map .string := by
  induction vs generalizing texts with
  | nil =>
    cases h
    rfl
  | cons v vs ih =>
    cases v with
    | string s =>
      rw [entries] at h
      cases hrest : entries vs with
      | error problem =>
        rw [hrest] at h
        cases h
      | ok rest =>
        rw [hrest] at h
        cases h
        rw [List.map_cons, ih hrest]
    | _ => cases h

/-- The plugins that are found are those that are listed, and where none are listed none are
found. -/
theorem pluginsOf_eq_ok_iff {members : Members} {plugins : List String} :
    pluginsOf members = .ok plugins ↔ Lists members plugins := by
  constructor
  · intro h
    rw [pluginsOf] at h
    split at h
    · rename_i hnone
      cases h
      exact .absent (Members.get?_eq_none_iff.mp hnone)
    · rename_i hnull
      cases h
      exact .null hnull
    · rename_i vs harray
      rw [eq_map_of_entries h] at harray
      exact .array harray
    · cases h
  · intro h
    rw [pluginsOf]
    cases h with
    | absent h => rw [Members.get?_eq_none_iff.mpr h]
    | null h => rw [h]
    | array h =>
      rw [h]
      exact entries_map_string plugins

/-! ### Texts that are configurations -/

/-- A text is a configuration if without its comments it is a document, an object that lists
plugins. -/
theorem parse_eq_ok_iff_lists {path : Path} {text : String} {c : Config} :
    parse path text = .ok c
      ↔ c.path = path ∧ Document (Comment.strip text).toList (.object c.members)
        ∧ ∃ plugins, Lists c.members plugins := by
  simp only [parse_eq_ok, read_eq_ok_iff_document, plugins_eq_ok, pluginsOf_eq_ok_iff]

theorem badConfig_of_parse {path : Path} {text : String} {failure : Failure}
    (h : parse path text = .error failure) : ∃ problem, failure = .badConfig path problem := by
  rw [parse] at h
  split at h
  · cases h
  · rename_i problem _
    cases h
    exact ⟨problem, rfl⟩

/-! ### Revisions -/

/-- A change of a configuration. -/
inductive Revision where
  /-- More plugins are merged into it. -/
  | merge (more : List String)
  /-- It is printed, and read back from its text. -/
  | reread

/-- The configuration after a change. -/
def revise (c : Config) : Revision → Except Failure Config
  | .merge more => (c.merge more).map Prod.fst
  | .reread => parse c.path c.text

/-- The configuration after changes, one after the other. -/
def reviseAll (c : Config) (revisions : List Revision) : Except Failure Config :=
  revisions.foldlM revise c

section
variable {c c' : Config}

theorem revise_merge {plugins : List String} (h : c.plugins = .ok plugins) (more : List String) :
    c.revise (.merge more) = .ok (c.withPlugins (PluginList.merge plugins more)) := by
  rw [revise, merge_of_plugins h]
  rfl

/-- A change keeps a configuration sound. -/
theorem sound_revise (h : c.Sound) {r : Revision} (hr : c.revise r = .ok c') : c'.Sound := by
  cases r with
  | merge more =>
    obtain ⟨plugins, hplugins⟩ := h.plugins
    rw [revise_merge hplugins] at hr
    cases hr
    exact sound_withPlugins h _
  | reread =>
    rw [revise] at hr
    exact sound_of_parse hr

/-- Where the numbers are whole, no change fails, and they stay whole. -/
theorem revise_of_whole (h : c.Sound) (hwhole : c.Whole) (r : Revision) :
    ∃ c', c.revise r = .ok c' ∧ c'.Whole := by
  cases r with
  | merge more =>
    obtain ⟨plugins, hplugins⟩ := h.plugins
    exact ⟨_, revise_merge hplugins more, whole_withPlugins hwhole _⟩
  | reread =>
    -- reading back gives the configuration itself
    refine ⟨c, ?_, hwhole⟩
    rw [revise]
    exact parse_text h hwhole

theorem reviseAll_cons (r : Revision) (revisions : List Revision) {c₁ : Config}
    (hr : c.revise r = .ok c₁) : c.reviseAll (r :: revisions) = c₁.reviseAll revisions := by
  rw [reviseAll, List.foldlM_cons, hr]
  rfl

theorem sound_reviseAll (h : c.Sound) {revisions : List Revision}
    (hrevisions : c.reviseAll revisions = .ok c') : c'.Sound := by
  induction revisions generalizing c with
  | nil =>
    cases hrevisions
    exact h
  | cons r revisions ih =>
    cases hr : c.revise r with
    | error failure =>
      rw [reviseAll, List.foldlM_cons, hr] at hrevisions
      cases hrevisions
    | ok c₁ =>
      rw [reviseAll_cons r revisions hr] at hrevisions
      exact ih (sound_revise h hr) hrevisions

theorem reviseAll_of_whole (h : c.Sound) (hwhole : c.Whole) (revisions : List Revision) :
    ∃ c', c.reviseAll revisions = .ok c' := by
  induction revisions generalizing c with
  | nil => exact ⟨c, rfl⟩
  | cons r revisions ih =>
    obtain ⟨c₁, hr, hwhole₁⟩ := revise_of_whole h hwhole r
    rw [reviseAll_cons r revisions hr]
    exact ih (sound_revise h hr) hwhole₁

/-- The plugins of a sound configuration are listed, and more of them can be merged into it. -/
theorem Sound.mergeable (h : c.Sound) :
    (∃ plugins, Lists c.members plugins ∧ c.plugins = .ok plugins)
      ∧ ∀ more, ∃ merged added, c.merge more = .ok (merged, added) := by
  obtain ⟨plugins, hplugins⟩ := h.plugins
  refine ⟨⟨plugins, pluginsOf_eq_ok_iff.mp (plugins_eq_ok.mp hplugins), hplugins⟩, fun more => ?_⟩
  exact ⟨_, _, merge_of_plugins hplugins more⟩

end

/-- **Configurations are valid and stay valid.**  A text is a configuration exactly if without its
comments it is a document, an object in which the plugins are missing, null or an array of strings
only; any other text is refused as a bad configuration at its path.  However a configuration that
is read or made is revised, its plugins are found and more can be merged into it; and if its numbers
are whole numbers of 64 bits, no revision fails. -/
theorem validity_law (path : Path) (text : String) :
    (∀ c, parse path text = .ok c
      ↔ c.path = path ∧ Document (Comment.strip text).toList (.object c.members)
        ∧ ∃ plugins, Lists c.members plugins)
    ∧ (∀ failure, parse path text = .error failure → ∃ problem, failure = .badConfig path problem)
    ∧ ∀ c, (parse path text = .ok c ∨ ∃ plugins, c = initial path plugins) →
      (∀ revisions c', c.reviseAll revisions = .ok c' →
        (∃ plugins, Lists c'.members plugins ∧ c'.plugins = .ok plugins)
          ∧ ∀ more, ∃ merged added, c'.merge more = .ok (merged, added))
      ∧ (c.Whole → ∀ revisions, ∃ c', c.reviseAll revisions = .ok c') := by
  refine ⟨fun c => parse_eq_ok_iff_lists, fun failure => badConfig_of_parse, fun c hc => ?_⟩
  have hsound : c.Sound := by
    rcases hc with hparse | ⟨plugins, rfl⟩
    · exact sound_of_parse hparse
    · exact sound_initial path plugins
  exact ⟨fun revisions c' h => (sound_reviseAll hsound h).mergeable,
    fun hwhole revisions => reviseAll_of_whole hsound hwhole revisions⟩

/-- A text in which plugins are listed behind a comment, and with a repetition, after there were
none. -/
def overwrittenText : String :=
  "\x7b\"plugins\": null, // \"none\"\n  \"plugins\": [\"./b\", \"./a\", \"./b\"]\x7d"

/-- A text in which not all plugins are strings. -/
def numberedText : String := "\x7b\"plugins\": [\"./b\", 1]\x7d"

theorem parse_overwrittenText :
    ∃ c, parse (Path.ofText "biome.jsonc") overwrittenText = .ok c
      ∧ c.members = [(PluginList.field, Json.strings ["./b", "./a", "./b"])] := by
  obtain ⟨c, hparse, hkeys, hplugins⟩ :
      ∃ c, parse (Path.ofText "biome.jsonc") overwrittenText = .ok c
      ∧ c.members.keys = [PluginList.field] ∧ c.plugins = .ok ["./b", "./a", "./b"] :=
    exists_parse_of_map (by decide +kernel)
  refine ⟨c, hparse, ?_⟩
  obtain ⟨⟨key, v⟩, hmembers, hkey⟩ := List.map_eq_singleton_iff.mp hkeys
  replace hkey : key = PluginList.field := hkey
  subst hkey
  have hlists := pluginsOf_eq_ok_iff.mp (plugins_eq_ok.mp hplugins)
  rw [hmembers] at hlists ⊢
  cases hlists with
  | array h =>
    rw [Members.get?, if_pos rfl, Option.some.injEq] at h
    rw [h]
    rfl

theorem validity_law_overwrittenText :
    ∃ c, parse (Path.ofText "biome.jsonc") overwrittenText = .ok c ∧ c.Whole
      ∧ Document (Comment.strip overwrittenText).toList (.object c.members)
      ∧ (∃ plugins, Lists c.members plugins)
      ∧ (∃ problem, parse (Path.ofText "biome.jsonc") numberedText
        = .error (.badConfig (Path.ofText "biome.jsonc") problem))
      ∧ ∃ c', c.reviseAll [.merge ["./c", "./a"], .reread, .merge ["./d"]] = .ok c'
        ∧ (∃ plugins, Lists c'.members plugins ∧ c'.plugins = .ok plugins)
        ∧ ∃ merged added, c'.merge ["./e", "./b"] = .ok (merged, added) := by
  obtain ⟨c, hparse, hmembers⟩ := parse_overwrittenText
  have hwhole : c.Whole := .object (by simpa [hmembers] using strings_whole _)
  obtain ⟨haccepted, -, hvalid⟩ := validity_law (Path.ofText "biome.jsonc") overwrittenText
  obtain ⟨-, hdocument, hlists⟩ := (haccepted c).mp hparse
  obtain ⟨hfound, hrevised⟩ := hvalid c (Or.inl hparse)
  obtain ⟨c', hc'⟩ := hrevised hwhole [.merge ["./c", "./a"], .reread, .merge ["./d"]]
  obtain ⟨hplugins, hmerge⟩ := hfound _ c' hc'
  have hrefused : (parse (Path.ofText "biome.jsonc") numberedText).toOption.isNone = true := by
    decide +kernel
  refine ⟨c, hparse, hwhole, hdocument, hlists, ?_, c', hc', hplugins, hmerge _⟩
  cases hnumbered : parse (Path.ofText "biome.jsonc") numberedText with
  | ok found =>
    rw [hnumbered] at hrefused
    cases hrefused
  | error failure =>
    obtain ⟨problem, rfl⟩ := (validity_law _ _).2.1 failure hnumbered
    exact ⟨problem, rfl⟩

end Config

end RulePack
