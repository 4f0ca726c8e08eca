import RulePack.Installation

/-!
# Merging lists of plugins

* `PluginList.merge_eq_eraseDups` — merging keeps the first occurrence of every path;
* `PluginList.merge_merge`, `PluginList.merge_assoc`, `PluginList.merge_again` — merging step by step,
  and merging again;
* `PluginList.missing_merge`, `PluginList.merge_eq_append` — what merging adds, and that it comes last;
* `PluginList.missing_merge_eq_nil_iff` — when it adds nothing;
* `PluginList.missing_append` — what is added step by step;
* `PluginPath.ofRule_injective` — different rules have different plugin paths;
* `Installation.nodup_pluginsFor` — so that the plugin paths of different rules are merged as they
  are.
-/

namespace RulePack

namespace PluginList

theorem fresh_eq_eraseDups (seen paths : List String) :
    fresh seen paths = (paths.filter (· ∉ seen)).eraseDups := by
  induction paths generalizing seen with
  | nil => rfl
  | cons p rest ih =>
    by_cases hp : p ∈ seen
    · rw [fresh, if_pos hp, List.filter_cons_of_neg (by simpa using hp), ih]
    · have hfilter : (rest.filter (· ∉ seen)).filter (fun q => !q == p)
          = rest.filter (· ∉ p :: seen) := by
        rw [List.filter_filter]
        refine List.filter_congr fun q _ => ?_
        by_cases hq : q = p
        · simp [hq]
        · simp [hq]
      rw [fresh, if_neg hp, List.filter_cons_of_pos (by simpa using hp), List.eraseDups_cons,
        hfilter, ih]

/-- Merging keeps the first occurrence of every path. -/
theorem merge_eq_eraseDups (existing incoming : List String) :
    merge existing incoming = (existing ++ incoming).eraseDups := by
  have hall : (existing ++ incoming).filter (· ∉ []) = existing ++ incoming :=
    List.filter_eq_self.mpr (by simp)
  rw [merge, fresh_eq_eraseDups, hall]

theorem eraseDups_of_nodup {paths : List String} (h : paths.Nodup) : paths.eraseDups = paths := by
  induction paths with
  | nil => rfl
  | cons p rest ih =>
    obtain ⟨hp, hrest⟩ := List.nodup_cons.mp h
    have hfilter : rest.filter (fun q => !q == p) = rest := by
      refine List.filter_eq_self.mpr fun q hq => ?_
      have hne : q ≠ p := fun heq => hp (heq ▸ hq)
      simpa using hne
    rw [List.eraseDups_cons, hfilter, ih hrest]

theorem nodup_eraseDups (paths : List String) : paths.eraseDups.Nodup := by
  have h := nodup_merge [] paths
  rwa [merge_eq_eraseDups, List.nil_append] at h

theorem eraseDups_eraseDups_append (xs ys : List String) :
    (xs.eraseDups ++ ys).eraseDups = (xs ++ ys).eraseDups := by
  have hremove : ys.removeAll xs.eraseDups = ys.removeAll xs := by
    simp [List.removeAll]
  rw [List.eraseDups_append, List.eraseDups_append, hremove,
    eraseDups_of_nodup (nodup_eraseDups xs)]

/-- Merging two lists one after the other is merging them as one. -/
theorem merge_merge (existing first second : List String) :
    merge (merge existing first) second = merge existing (first ++ second) := by
  rw [merge_eq_eraseDups, merge_eq_eraseDups, merge_eq_eraseDups, eraseDups_eraseDups_append,
    List.append_assoc]

/-- A list without repetitions that has all of the other one stays as it is. -/
theorem merge_of_subset {existing incoming : List String} (hnodup : existing.Nodup)
    (hsub : ∀ p ∈ incoming, p ∈ existing) : merge existing incoming = existing := by
  have hremove : incoming.removeAll existing = [] := by
    simpa [List.removeAll] using hsub
  rw [merge_eq_eraseDups, List.eraseDups_append, hremove, List.eraseDups_nil, List.append_nil,
    eraseDups_of_nodup hnodup]

theorem merge_again (existing incoming : List String) :
    merge (merge existing incoming) incoming = merge existing incoming :=
  merge_of_subset (nodup_merge existing incoming) fun _ hp => mem_merge.mpr (Or.inr hp)

/-- What merging adds are the paths that are new, each at its first place. -/
theorem missing_merge (existing incoming : List String) :
    missing existing (merge existing incoming) = (incoming.filter (· ∉ existing)).eraseDups := by
  have hremove : incoming.removeAll existing = incoming.filter (· ∉ existing) := by
    simp [List.removeAll]
  have hold : existing.eraseDups.filter (· ∉ existing) = [] := by
    simp
  have hnew : (incoming.removeAll existing).eraseDups.filter (· ∉ existing)
      = (incoming.removeAll existing).eraseDups := by
    simp [List.removeAll]
  rw [missing, merge_eq_eraseDups, List.eraseDups_append, List.filter_append, hold, hnew,
    List.nil_append, hremove]

/-- Nothing is added if all of it was there. -/
theorem missing_merge_eq_nil_iff {existing incoming : List String} :
    missing existing (merge existing incoming) = [] ↔ incoming ⊆ existing := by
  simp only [missing, List.filter_eq_nil_iff, mem_merge, decide_eq_true_eq, Decidable.not_not]
  constructor
  · intro h p hp
    exact h p (Or.inr hp)
  · rintro h p (hold | hnew)
    · exact hold
    · exact h hnew

theorem missing_self (paths : List String) : missing paths paths = [] := by
  simp [missing]

/-- The merged list is the old one without its repetitions, and behind it what is added. -/
theorem merge_eq_append (existing incoming : List String) :
    merge existing incoming
      = existing.eraseDups ++ missing existing (merge existing incoming) := by
  have hremove : incoming.removeAll existing = incoming.filter (· ∉ existing) := by
    simp [List.removeAll]
  rw [missing_merge, merge_eq_eraseDups, List.eraseDups_append, hremove]

/-- What is added in two steps is added in one, in the same order. -/
theorem missing_append (existing first second : List String) :
    missing existing (merge existing (first ++ second))
      = missing existing (merge existing first)
        ++ missing (merge existing first) (merge (merge existing first) second) := by
  have hlast := merge_eq_append (merge existing first) second
  rw [eraseDups_of_nodup (nodup_merge existing first)] at hlast
  -- both sides complete the same list
  refine (List.append_right_inj existing.eraseDups).mp ?_
  calc existing.eraseDups ++ missing existing (merge existing (first ++ second))
      = merge (merge existing first) second := by rw [← merge_eq_append, merge_merge]
    _ = merge existing first
          ++ missing (merge existing first) (merge (merge existing first) second) := hlast
    _ = existing.eraseDups ++ (missing existing (merge existing first)
          ++ missing (merge existing first) (merge (merge existing first) second)) := by
        rw [← List.append_assoc, ← merge_eq_append]

/-- Paths that were seen before may be dropped first. -/
theorem fresh_fresh {seen before : List String} (h : before ⊆ seen) (paths : List String) :
    fresh seen (fresh before paths) = fresh seen paths := by
  induction paths generalizing seen before with
  | nil => rfl
  | cons p rest ih =>
    by_cases hbefore : p ∈ before
    · rw [fresh, if_pos hbefore, ih h, fresh, if_pos (h hbefore)]
    · rw [fresh, if_neg hbefore]
      by_cases hseen : p ∈ seen
      · rw [fresh, if_pos hseen, fresh, if_pos hseen, ih (List.cons_subset.mpr ⟨hseen, h⟩)]
      · rw [fresh, if_neg hseen, fresh, if_neg hseen, ih (List.cons_subset_cons p h)]

/-- Merging into a merged list is merging a merged list. -/
theorem merge_assoc (first second third : List String) :
    merge (merge first second) third = merge first (merge second third) := by
  have hdrop : ((merge second third).filter (· ∉ first)).eraseDups
      = ((second ++ third).filter (· ∉ first)).eraseDups := by
    rw [← fresh_eq_eraseDups, ← fresh_eq_eraseDups, merge, fresh_fresh (List.nil_subset first)]
  rw [merge_merge, merge_eq_append, missing_merge, merge_eq_append first (merge second third),
    missing_merge, hdrop]

end PluginList

namespace PluginPath

theorem ofRule_injective {base : String} {r s : Rule} (h : ofRule base r = ofRule base s) :
    r = s := by
  have hname : r.fileName = s.fileName := by
    rw [ofRule, ofRule] at h
    split at h
    · split at h
      · exact h
      · exact (String.append_right_inj _).mp h
    · exact (String.append_right_inj _).mp h
  have hrule := Rule.ofText?_fileName r
  rw [hname, Rule.ofText?_fileName] at hrule
  exact (Option.some.inj hrule).symm

end PluginPath

theorem Installation.nodup_pluginsFor (dir : Path) {rules : List Rule} (h : rules.Nodup) :
    (pluginsFor dir rules).Nodup :=
  List.Pairwise.map _ (fun _ _ hne heq => hne (PluginPath.ofRule_injective heq)) h

end RulePack
