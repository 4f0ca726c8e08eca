import RulePack.Proofs.Config.RoundTrip
import RulePack.Proofs.Json.Outline

/-!
# Plugins are read back whatever the numbers are

* `Json.Members.get?_of_like` — like members have like values;
* `Config.pluginsOf_of_like` — and the same plugins;
* `Config.plugins_of_parse_text` — the plugins of a configuration that is read from a printed one.
-/

namespace RulePack

open Json

/-- Members that are like others have like values at the same keys. -/
theorem Json.Members.get?_of_like {ms ns : Members} (hkeys : ms.keys = ns.keys)
    (hlike : ∀ p ∈ ms.zip ns, Like p.1.2 p.2.2) (key : String) :
    (ms.get? key = none ∧ ns.get? key = none)
      ∨ ∃ v w, ms.get? key = some v ∧ ns.get? key = some w ∧ Like v w := by
  induction ms generalizing ns with
  | nil =>
    cases ns with
    | nil => exact Or.inl ⟨rfl, rfl⟩
    | cons n ns => cases hkeys
  | cons m ms ih =>
    cases ns with
    | nil => cases hkeys
    | cons n ns =>
      obtain ⟨k, v⟩ := m
      obtain ⟨l, w⟩ := n
      rw [Members.keys, Members.keys, List.map_cons, List.map_cons, List.cons.injEq] at hkeys
      obtain ⟨rfl, hkeys⟩ := hkeys
      rw [List.zip_cons_cons, List.forall_mem_cons] at hlike
      by_cases hk : k = key
      · rw [get?, get?, if_pos hk, if_pos hk]
        exact Or.inr ⟨v, w, rfl, rfl, hlike.1⟩
      · rw [get?, get?, if_neg hk, if_neg hk]
        exact ih hkeys hlike.2

namespace Config

theorem entries_of_like {vs ws : List Json} (hlike : Pointwise Like vs ws) {texts : List String}
    (h : entries vs = .ok texts) : entries ws = .ok texts := by
  induction vs generalizing ws texts with
  | nil =>
    cases ws with
    | nil => exact h
    | cons w ws => cases hlike.1
  | cons v vs ih =>
    cases ws with
    | nil => cases hlike.1
    | cons w ws =>
      obtain ⟨hfirst, hmore⟩ := pointwise_cons.mp hlike
      cases hfirst with
      | string s =>
        rw [entries] at h ⊢
        cases hrest : entries vs with
        | error problem =>
          rw [hrest] at h
          cases h
        | ok rest =>
          rw [ih hmore hrest, ← hrest]
          exact h
      | _ => cases h

/-- The plugins among members are those among members like them. -/
theorem pluginsOf_of_like {ms ns : Members} (hlike : Like (.object ms) (.object ns))
    {plugins : List String} (h : pluginsOf ms = .ok plugins) : pluginsOf ns = .ok plugins := by
  cases hlike with
  | object hkeys hvalues =>
    rw [pluginsOf] at h ⊢
    rcases Members.get?_of_like hkeys hvalues PluginList.field with
      ⟨hnone, hnone'⟩ | ⟨v, w, hv, hw, hvalue⟩
    · rw [hnone] at h
      rw [hnone']
      exact h
    · rw [hv] at h
      rw [hw]
      cases hvalue with
      | null => exact h
      | array hlength hentries => exact entries_of_like ⟨hlength, hentries⟩ h
      | _ => cases h

/-- **The plugins of a configuration are read back from its text**, if it is read at all, whatever
its numbers are. -/
theorem plugins_of_parse_text {c c' : Config} {path : Path} {plugins : List String} (h : c.Sound)
    (hplugins : c.plugins = .ok plugins) (hparse : parse path c.text = .ok c') :
    c'.plugins = .ok plugins := by
  obtain ⟨-, hread, -⟩ := parse_eq_ok.mp hparse
  rw [text, Comment.strip_render_newline h.fits] at hread
  have hlike := like_of_read h.fits hread
  exact plugins_eq_ok.mpr (pluginsOf_of_like hlike (plugins_eq_ok.mp hplugins))

end Config

end RulePack
