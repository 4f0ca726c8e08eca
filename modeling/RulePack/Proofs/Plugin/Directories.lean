import Mathlib.Data.List.DropRight
import RulePack.Proofs.Plugin.Pointing

/-!
# Plugin paths in different directories

In plugin paths every backslash of a directory is written as a slash, so only directories that
differ when they are read that way are told apart.

* `PluginPath.ofRule_eq_iff` — a plugin path determines its rule and, up to the slashes at its end,
  its base;
* `PluginPath.ofRule_ne` — directories that differ when they are read that way have no plugin path
  in common;
* `PluginPath.not_ofRule_ne_of_spokenSegments` — directories that differ otherwise may have one.
-/

namespace RulePack

namespace PluginPath

open RulePack.Path (components spokenSegments)

variable {base other target : String} {r s : Rule}

/-! ### Telling base and rule apart -/

theorem ofRule_of_ne (h : base ≠ "") (r : Rule) :
    ofRule base r = trimSlashes base ++ "/" ++ r.fileName := by
  rw [ofRule]
  split
  · rename_i htrimmed
    rw [if_neg (by simpa using h), String.isEmpty_iff.mp htrimmed, String.empty_append]
  · rfl

/-- What stands behind the last slash of a text. -/
def afterSlashes (text : String) : List Char := text.toList.rtakeWhile (· ≠ '/')

theorem afterSlashes_append {name : String} (h : '/' ∉ name.toList) (text : String) :
    afterSlashes (text ++ "/" ++ name) = name.toList := by
  have hname : ∀ c ∈ name.toList.reverse, decide (c ≠ '/') = true := by
    intro c hc
    rw [decide_eq_true_eq]
    rintro rfl
    exact h (List.mem_reverse.mp hc)
  rw [afterSlashes, List.rtakeWhile, String.toList_append, String.toList_append,
    List.reverse_append, List.reverse_append, List.takeWhile_append_of_pos hname]
  simp

theorem slash_not_mem_fileName (r : Rule) : '/' ∉ r.fileName.toList := by
  cases r <;> decide

/-- A plugin path determines its rule, and its base up to the slashes at the end. -/
theorem ofRule_eq_iff (hbase : base ≠ "") (hother : other ≠ "") :
    ofRule base r = ofRule other s ↔ r = s ∧ trimSlashes base = trimSlashes other := by
  rw [ofRule_of_ne hbase, ofRule_of_ne hother]
  constructor
  · intro h
    have hname := congrArg afterSlashes h
    rw [afterSlashes_append (slash_not_mem_fileName r),
      afterSlashes_append (slash_not_mem_fileName s), String.toList_inj] at hname
    have hrule : r = s := Rule.fileName_injective (congrArg Text.bytes hname)
    rw [hrule, String.append_left_inj, String.append_left_inj] at h
    exact ⟨hrule, h⟩
  · rintro ⟨rfl, h⟩
    rw [h]

/-! ### Different directories -/

theorem base_ne_empty (target : String) : PluginPath.base (Path.ofText target) ≠ "" := by
  intro h
  have hhead := head?_base target
  rw [h] at hhead
  cases hhead

/-- Directories that are different, their backslashes read as slashes, have no plugin path in
common. -/
theorem ofRule_ne (h : slashComponents target ≠ slashComponents other) (r s : Rule) :
    ofRule (PluginPath.base (Path.ofText target)) r
      ≠ ofRule (PluginPath.base (Path.ofText other)) s := by
  intro heq
  have hsame := components_ofRule (PluginPath.base (Path.ofText target)) r
  rw [heq, components_ofRule, Prod.mk.injEq] at hsame
  obtain ⟨habsolute, hsegments⟩ := hsame
  refine h ?_
  rw [← components_base_of_slashes, ← components_base_of_slashes, components, components, habsolute,
    (List.append_inj' hsegments rfl).1]

/-- A directory with a backslash in its name and one in another directory have the same plugin
paths. -/
theorem not_ofRule_ne_of_spokenSegments :
    ¬∀ (r : Rule) (target other : String), (Path.ofText target).isAbsolute = false →
      (Path.ofText other).isAbsolute = false →
      spokenSegments (Path.ofText target) ≠ spokenSegments (Path.ofText other) →
      ofRule (PluginPath.base (Path.ofText target)) r
        ≠ ofRule (PluginPath.base (Path.ofText other)) r := by
  intro h
  refine h .propMutation "a\\b" "a/b" (by decide) (by decide) (by decide) ?_
  have hwritten : forwardSlashes "a\\b" = "a/b" := by
    rw [← String.toList_inj, forwardSlashes, String.toList_map]
    rfl
  have hsame : forwardSlashes "a/b" = "a/b" := forwardSlashes_of_not_mem (by decide)
  rw [PluginPath.base, PluginPath.base, Path.shown_ofText, Path.shown_ofText, hwritten, hsame]
  rfl

end PluginPath

end RulePack
