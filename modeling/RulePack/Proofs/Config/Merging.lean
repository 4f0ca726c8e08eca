import RulePack.Proofs.Config.RoundTrip
import RulePack.Proofs.Plugin.Merging

/-!
# Merging plugins into a configuration

* `Config.Extends` — what a configuration is after plugins have been merged into it;
* `Config.merge_extends` — plugins can always be merged, and that is what comes of it;
* `Config.merge_batches` — merging lists one after the other is merging them at once.
-/

namespace RulePack

open Json

namespace Config

variable {c : Config}

/-! ### One list -/

/-- The configuration `c'` is `c` with the plugins `more` merged into it; `existing` were its plugins
before, and `added` are those that it did not have. -/
structure Extends (c : Config) (existing more : List String) (c' : Config)
    (added : List String) : Prop where
  path_eq : c'.path = c.path
  /-- The plugins that it did not have, in their order, each at its first place. -/
  added_eq : added = (more.filter (· ∉ existing)).eraseDups
  /-- The old plugins come first, without the repetitions among them. -/
  plugins_eq : c'.plugins = .ok (existing.eraseDups ++ added)
  nodup : (existing.eraseDups ++ added).Nodup
  mem_iff : ∀ p, p ∈ existing.eraseDups ++ added ↔ p ∈ existing ∨ p ∈ more
  /-- Where there were plugins, even if the value was null, the order of the keys is kept. -/
  keys_of_mem : PluginList.field ∈ c.members.keys → c'.members.keys = c.members.keys
  keys_of_not_mem : PluginList.field ∉ c.members.keys →
    c'.members.keys = c.members.keys ++ [PluginList.field]
  others : ∀ key, key ≠ PluginList.field → c'.members.get? key = c.members.get? key

/-- Replacing the plugins by the merged list does all of this. -/
theorem extends_withPlugins (c : Config) (existing more : List String) :
    Extends c existing more (c.withPlugins (PluginList.merge existing more))
      (PluginList.missing existing (PluginList.merge existing more)) where
  path_eq := rfl
  added_eq := PluginList.missing_merge existing more
  plugins_eq := by
    rw [← PluginList.merge_eq_append]
    exact plugins_withPlugins c (PluginList.merge existing more)
  nodup := by
    rw [← PluginList.merge_eq_append]
    exact PluginList.nodup_merge existing more
  mem_iff p := by
    rw [← PluginList.merge_eq_append]
    exact PluginList.mem_merge
  keys_of_mem h := by
    show (c.members.insert PluginList.field _).keys = c.members.keys
    rw [Members.keys_insert, if_pos h]
  keys_of_not_mem h := by
    show (c.members.insert PluginList.field _).keys = c.members.keys ++ [PluginList.field]
    rw [Members.keys_insert, if_neg h]
  others key hkey := Members.get?_insert_of_ne hkey _ c.members

/-- **What merging does.**  A configuration that has been read or made, whatever has been merged
into it before, takes any further list of plugins.  Nothing but its plugins changes: they are the
old ones and the new ones, each at its first place, and what is told to be new is exactly what was
not there. -/
theorem merge_extends (h : Reachable c) (more : List String) :
    ∃ existing c' added, c.plugins = .ok existing ∧ c.merge more = .ok (c', added)
      ∧ Extends c existing more c' added := by
  obtain ⟨existing, hexisting⟩ := h.sound.plugins
  exact ⟨existing, _, _, hexisting, merge_of_plugins hexisting more,
    extends_withPlugins c existing more⟩

/-- A text in which the plugins stand twice, the second time with a repetition. -/
def repeatedText : String :=
  "\x7b\"plugins\": null, /* \"none\" */ \"files\": [1], \"plugins\": [\"./b\", \"./a\", \"./b\"]\x7d"

theorem parse_repeatedText :
    ∃ c, parse (Path.ofText "biome.json") repeatedText = .ok c
      ∧ c.members.keys = ["plugins", "files"] ∧ c.plugins = .ok ["./b", "./a", "./b"] :=
  exists_parse_of_map (by decide +kernel)

theorem merge_extends_repeatedText :
    ∃ c c', parse (Path.ofText "biome.json") repeatedText = .ok c ∧ Reachable c
      ∧ c.merge ["./c", "./a", "./c"] = .ok (c', ["./c"])
      ∧ c'.plugins = .ok ["./b", "./a", "./c"]
      ∧ c'.members.keys = ["plugins", "files"]
      ∧ c'.members.get? "files" = c.members.get? "files" := by
  obtain ⟨c, hparse, hkeys, hplugins⟩ := parse_repeatedText
  have hreachable : Reachable c := .parsed hparse
  obtain ⟨existing, c', added, hexisting, hmerge, hextends⟩ :=
    merge_extends hreachable ["./c", "./a", "./c"]
  cases hplugins.symm.trans hexisting
  have hadded : added = ["./c"] := hextends.added_eq.trans (by decide)
  subst hadded
  refine ⟨c, c', hparse, hreachable, hmerge, hextends.plugins_eq, ?_, hextends.others _ (by decide)⟩
  rw [hextends.keys_of_mem (by rw [hkeys]; decide), hkeys]

/-! ### List after list -/

/-- Merging lists one after the other is merging them at once. -/
theorem merge_append {existing : List String} (h : c.plugins = .ok existing)
    (first second : List String) :
    ∃ c₁ c₂ added₁ added₂, c.merge first = .ok (c₁, added₁) ∧ c₁.merge second = .ok (c₂, added₂)
      ∧ c.merge (first ++ second) = .ok (c₂, added₁ ++ added₂)
      ∧ c₂.plugins = .ok (PluginList.merge existing (first ++ second)) := by
  have hsecond := merge_of_plugins
    (plugins_withPlugins c (PluginList.merge existing first)) second
  rw [withPlugins_withPlugins, PluginList.merge_merge] at hsecond
  refine ⟨_, _, _, _, merge_of_plugins h first, hsecond, ?_, plugins_withPlugins c _⟩
  rw [merge_of_plugins h, PluginList.missing_append, PluginList.merge_merge]

/-- **Merging in batches.**  Two lists that are merged into a configuration one after the other give
the document that both of them give at once, and what is told to be new is the same.  In the other
order they give the same plugins in another order.  Merging of lists is associative, and merging a
list again changes nothing. -/
theorem merge_batches (h : Reachable c) (first second : List String) :
    (∃ c₁ c₂ added₁ added₂, c.merge first = .ok (c₁, added₁) ∧ c₁.merge second = .ok (c₂, added₂)
      ∧ c.merge (first ++ second) = .ok (c₂, added₁ ++ added₂)
      ∧ ∃ d₁ d₂ added₁' added₂' plugins plugins', c.merge second = .ok (d₁, added₁')
        ∧ d₁.merge first = .ok (d₂, added₂') ∧ c₂.plugins = .ok plugins
        ∧ d₂.plugins = .ok plugins' ∧ ∀ p, p ∈ plugins ↔ p ∈ plugins')
    ∧ (∀ xs ys zs, PluginList.merge (PluginList.merge xs ys) zs
      = PluginList.merge xs (PluginList.merge ys zs))
    ∧ ∀ xs ys, PluginList.merge (PluginList.merge xs ys) ys = PluginList.merge xs ys := by
  obtain ⟨existing, hexisting⟩ := h.sound.plugins
  obtain ⟨c₁, c₂, added₁, added₂, hfirst, hsecond, hboth, hplugins⟩ :=
    merge_append hexisting first second
  obtain ⟨d₁, d₂, added₁', added₂', hsecond', hfirst', -, hplugins'⟩ :=
    merge_append hexisting second first
  refine ⟨⟨c₁, c₂, added₁, added₂, hfirst, hsecond, hboth, d₁, d₂, added₁', added₂', _, _,
    hsecond', hfirst', hplugins, hplugins', fun p => ?_⟩, PluginList.merge_assoc,
    PluginList.merge_again⟩
  simp only [PluginList.mem_merge, List.mem_append, or_comm (a := p ∈ first)]

theorem merge_batches_repeatedText :
    ∃ c c', parse (Path.ofText "biome.json") repeatedText = .ok c ∧ Reachable c
      ∧ c.merge (["./c", "./a"] ++ ["./d", "./c"]) = .ok (c', ["./c"] ++ ["./d"])
      ∧ c'.plugins = .ok ["./b", "./a", "./c", "./d"] := by
  obtain ⟨c, hparse, -, hplugins⟩ := parse_repeatedText
  have hreachable : Reachable c := .parsed hparse
  obtain ⟨⟨c₁, c', added₁, added₂, hfirst, hsecond, hboth, -⟩, -, -⟩ :=
    merge_batches hreachable ["./c", "./a"] ["./d", "./c"]
  have hone := (merge_of_plugins hplugins ["./c", "./a"]).symm.trans hfirst
  cases hone
  have htwo := (merge_of_plugins (plugins_withPlugins c _) ["./d", "./c"]).symm.trans hsecond
  cases htwo
  have hadded₁ : PluginList.missing ["./b", "./a", "./b"]
      (PluginList.merge ["./b", "./a", "./b"] ["./c", "./a"]) = ["./c"] := by decide
  have hmerged : PluginList.merge ["./b", "./a", "./b"] ["./c", "./a"] = ["./b", "./a", "./c"] := by
    decide
  have hadded₂ : PluginList.missing ["./b", "./a", "./c"]
      (PluginList.merge ["./b", "./a", "./c"] ["./d", "./c"]) = ["./d"] := by decide
  rw [hadded₁, hmerged, hadded₂] at hboth
  exact ⟨c, _, hparse, hreachable, hboth, plugins_withPlugins _ _⟩

end Config

end RulePack
