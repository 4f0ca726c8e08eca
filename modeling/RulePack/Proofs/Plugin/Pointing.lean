import RulePack.Installation
import RulePack.Proofs.Installation.Copying
import RulePack.Proofs.Path.Components

/-!
# Plugin paths point at the copies

A plugin path is put together from texts, and the place of a copy from paths.

* `PluginPath.toList_trimSlashes` — a text is its trimmed form and the slashes that were cut off;
* `PluginPath.components_ofRule` — a plugin path says what its base says, and the rule's file;
* `PluginPath.slashComponents`, `PluginPath.components_base_of_slashes` — the base says what the
  target directory says, if every backslash is read as a slash;
* `PluginPath.ofRule_begins`, `PluginPath.base_begins` — how plugin paths in relative directories
  begin;
* `Installation.components_of_plugin` — a plugin path points at the copy of its rule.
-/

namespace RulePack

namespace PluginPath

open RulePack.Path (components spokenSegments)

variable {target : String} {r : Rule}

/-! ### Trimming -/

/-- A text is its trimmed form and the slashes that were cut off. -/
theorem toList_trimSlashes (text : String) :
    ∃ count, text.toList = (trimSlashes text).toList ++ List.replicate count '/' := by
  have hslashes : ∀ c ∈ text.toList.reverse.takeWhile (· == '/'), c = '/' := by
    intro c hc
    have hall := List.all_takeWhile (p := (· == '/')) (l := text.toList.reverse)
    exact beq_iff_eq.mp (List.all_eq_true.mp hall c hc)
  refine ⟨(text.toList.reverse.takeWhile (· == '/')).length, ?_⟩
  rw [trimSlashes, String.toList_ofList, ← List.reverse_replicate,
    ← List.eq_replicate_of_mem hslashes, ← List.reverse_append, List.takeWhile_append_dropWhile,
    List.reverse_reverse]

theorem spokenSegments_trimSlashes (text : String) :
    (Path.ofText (trimSlashes text)).spokenSegments = (Path.ofText text).spokenSegments := by
  obtain ⟨count, htext⟩ := toList_trimSlashes text
  have hbytes : Text.bytes text
      = Text.bytes (trimSlashes text) ++ List.replicate count Path.slash := by
    have hslash : String.utf8EncodeChar '/' = [Path.slash] := rfl
    rw [Text.bytes, htext, List.flatMap_append, List.flatMap_replicate, hslash,
      List.flatten_replicate_singleton, Text.bytes]
  rw [Path.ofText, Path.ofText, hbytes, Path.spokenSegments_append_slashes]

/-- A text that is trimmed to nothing is empty or begins at the root. -/
theorem isAbsolute_of_trimSlashes {text : String} (h : (trimSlashes text).isEmpty = true) :
    (Path.ofText text).isAbsolute = !text.isEmpty := by
  obtain ⟨count, htext⟩ := toList_trimSlashes text
  rw [String.isEmpty_iff.mp h, String.toList_empty, List.nil_append] at htext
  cases count with
  | zero =>
    rw [List.replicate_zero, String.toList_eq_nil_iff] at htext
    rw [htext]
    rfl
  | succ count =>
    have hne : text.isEmpty = false := by
      rw [String.isEmpty_eq_false_iff]
      rintro rfl
      cases htext
    rw [hne, Bool.not_false, Path.isAbsolute_ofText_iff, htext]
    rfl

/-- Otherwise trimming keeps the place where it begins. -/
theorem isAbsolute_append_of_trimSlashes {text more : String}
    (h : (trimSlashes text).isEmpty = false) :
    (Path.ofText (trimSlashes text ++ more)).isAbsolute = (Path.ofText text).isAbsolute := by
  obtain ⟨count, htext⟩ := toList_trimSlashes text
  rw [Bool.eq_iff_iff, Path.isAbsolute_ofText_iff, Path.isAbsolute_ofText_iff, htext,
    String.toList_append]
  cases htrimmed : (trimSlashes text).toList with
  | nil =>
    rw [String.isEmpty_eq_false_iff] at h
    exact absurd (String.toList_eq_nil_iff.mp htrimmed) h
  | cons c cs => rfl

/-! ### The plugin path of a rule -/

theorem spokenSegments_fileName (front : String) (r : Rule) :
    (Path.ofText (front ++ "/" ++ r.fileName)).spokenSegments
      = (Path.ofText front).spokenSegments ++ [Text.bytes r.fileName] := by
  rw [Path.ofText, Text.bytes_append, Text.bytes_append, List.append_assoc]
  exact (Path.spokenSegments_append_slash _ _).trans
    (congrArg _ (Path.spokenSegments_name r.isName_fileName))

/-- A plugin path says what its base says, and the name of the rule's file. -/
theorem components_ofRule (base : String) (r : Rule) :
    components (Path.ofText (ofRule base r))
      = ((Path.ofText base).isAbsolute,
          (Path.ofText base).spokenSegments ++ [Text.bytes r.fileName]) := by
  rw [components, ofRule, ← spokenSegments_trimSlashes base]
  cases htrimmed : (trimSlashes base).isEmpty with
  | true =>
    rw [if_pos rfl, isAbsolute_of_trimSlashes htrimmed, String.isEmpty_iff.mp htrimmed]
    cases base.isEmpty with
    | true =>
      rw [if_pos rfl, Path.isAbsolute_ofText r.isName_fileName]
      exact congrArg _ (Path.spokenSegments_name r.isName_fileName)
    | false =>
      rw [if_neg Bool.false_ne_true, Bool.not_false, ← String.empty_append (s := "/"),
        spokenSegments_fileName, Path.isAbsolute_ofText_iff.mpr]
      rw [String.empty_append, String.toList_append]
      rfl
  | false =>
    rw [if_neg Bool.false_ne_true, spokenSegments_fileName, String.append_assoc,
      isAbsolute_append_of_trimSlashes htrimmed]

/-- A plugin path begins with the dots that its base begins with, and a slash. -/
theorem ofRule_begins {base : String} {dots more : List Char} (hne : dots ≠ [])
    (hdots : '/' ∉ dots) (hmore : ∀ c ∈ more.head?, c = '/') (h : base.toList = dots ++ more) :
    dots ++ ['/'] <+: (ofRule base r).toList := by
  obtain ⟨count, hbase⟩ := toList_trimSlashes base
  -- what is cut off stands behind the dots, since it is of slashes
  have htrimmed : ∃ left, (trimSlashes base).toList = dots ++ left
      ∧ ∀ c ∈ left.head?, c = '/' := by
    rcases List.append_eq_append_iff.mp (hbase.symm.trans h) with
      ⟨cut, hcut, hslashes⟩ | ⟨left, hleft, hrest⟩
    · have hnil : cut = [] := by
        refine List.eq_nil_iff_forall_not_mem.mpr fun c hc => hdots ?_
        have hslash : c = '/' := List.eq_of_mem_replicate (hslashes ▸ List.mem_append_left _ hc)
        rw [hcut, ← hslash]
        exact List.mem_append_right _ hc
      refine ⟨[], by rw [hcut, hnil, List.append_nil, List.append_nil], fun c hc => by cases hc⟩
    · refine ⟨left, hleft, fun c hc => hmore c ?_⟩
      obtain ⟨rest, rfl⟩ := List.head?_eq_some_iff.mp hc
      rw [hrest]
      rfl
  obtain ⟨left, hleft, hslash⟩ := htrimmed
  have hnonempty : (trimSlashes base).isEmpty = false := by
    rw [String.isEmpty_eq_false_iff]
    intro hempty
    rw [hempty] at hleft
    exact hne (List.append_eq_nil_iff.mp hleft.symm).1
  rw [ofRule, hnonempty, if_neg Bool.false_ne_true, String.toList_append, String.toList_append,
    hleft, List.append_assoc, List.append_assoc, List.prefix_append_right_inj]
  cases left with
  | nil => exact List.prefix_append _ _
  | cons c left =>
    rw [hslash c rfl]
    exact List.prefix_append ['/'] _

/-! ### The base directory -/

theorem forwardSlashes_of_not_mem {text : String} (h : '\\' ∉ text.toList) :
    forwardSlashes text = text := by
  rw [← String.toList_inj, forwardSlashes, String.toList_map]
  refine (List.map_congr_left fun c hc => if_neg ?_).trans (List.map_id _)
  rintro rfl
  exact h hc

/-- The base of a target directory is its text, with or without `./` before it. -/
theorem base_ofText (h : '\\' ∉ target.toList) :
    base (Path.ofText target)
      = if (Path.ofText target).isAbsolute || startsWithDots (Path.ofText target) then target
        else "./" ++ target := by
  rw [base, Path.shown_ofText, forwardSlashes_of_not_mem h]

/-- A target directory whose first component is of dots is written with them in front. -/
theorem toList_of_startsWithDots (h : startsWithDots (Path.ofText target) = true) :
    ∃ dots more, (dots = ['.'] ∨ dots = ['.', '.']) ∧ target.toList = dots ++ more
      ∧ ∀ c ∈ more.head?, c = '/' := by
  have hbegins (dots : List Char) (hascii : dots.all (·.toNat < 128) = true) {rest : List Segment}
      (hfirst : (Path.ofText target).segments = Text.bytes (String.ofList dots) :: rest) :
      ∃ more, target.toList = dots ++ more ∧ ∀ c ∈ more.head?, c = '/' := by
    rcases Path.toList_of_segments (by simpa using hascii) hfirst with hall | ⟨cs, hcs⟩
    · exact ⟨[], by rw [hall, List.append_nil], fun c hc => by cases hc⟩
    · exact ⟨'/' :: cs, hcs, fun c hc => by cases hc; rfl⟩
  unfold startsWithDots at h
  cases hsegments : (Path.ofText target).segments with
  | nil =>
    rw [hsegments] at h
    cases h
  | cons first rest =>
    rw [hsegments] at h
    dsimp only at h
    rw [Bool.or_eq_true, beq_iff_eq, beq_iff_eq] at h
    rcases h with rfl | rfl
    · obtain ⟨more, hmore⟩ := hbegins ['.'] rfl hsegments
      exact ⟨['.'], more, Or.inl rfl, hmore⟩
    · obtain ⟨more, hmore⟩ := hbegins ['.', '.'] rfl hsegments
      exact ⟨['.', '.'], more, Or.inr rfl, hmore⟩

/-- Where a target directory starts as it is given, and the names and upward steps that it is made of
if every backslash is read as a slash. -/
def slashComponents (target : String) : Bool × List Segment :=
  ((Path.ofText target).isAbsolute, spokenSegments (Path.ofText (forwardSlashes target)))

/-- Without backslashes these are the components. -/
theorem slashComponents_of_not_mem (h : '\\' ∉ target.toList) :
    slashComponents target = components (Path.ofText target) := by
  rw [slashComponents, forwardSlashes_of_not_mem h, components]

/-- The first character of a text, with a slash for a backslash. -/
theorem head?_forwardSlashes (text : String) :
    (forwardSlashes text).toList.head?
      = text.toList.head?.map fun c => if c = '\\' then '/' else c := by
  rw [forwardSlashes, String.toList_map, List.head?_map]

/-- The base begins at the root if the target directory does, and otherwise with a dot. -/
theorem head?_base (target : String) :
    (base (Path.ofText target)).toList.head?
      = some (if (Path.ofText target).isAbsolute then '/' else '.') := by
  rw [base, Path.shown_ofText]
  cases habsolute : (Path.ofText target).isAbsolute with
  | true =>
    rw [Bool.true_or, if_pos rfl, head?_forwardSlashes, Path.isAbsolute_ofText_iff.mp habsolute]
    rfl
  | false =>
    rw [Bool.false_or]
    cases hdots : startsWithDots (Path.ofText target) with
    | false =>
      rw [if_neg Bool.false_ne_true, String.toList_append]
      rfl
    | true =>
      obtain ⟨dots, more, hdots, htarget, -⟩ := toList_of_startsWithDots hdots
      rw [if_pos rfl, head?_forwardSlashes, htarget]
      rcases hdots with rfl | rfl <;> rfl

/-- The base of a target directory says what the target directory says with slashes for its
backslashes. -/
theorem components_base_of_slashes (target : String) :
    components (Path.ofText (base (Path.ofText target))) = slashComponents target := by
  refine Path.components_eq_iff.mpr ⟨?_, ?_⟩
  · rw [Bool.eq_iff_iff, Path.isAbsolute_ofText_iff, head?_base]
    cases (Path.ofText target).isAbsolute <;> simp
  · rw [base, Path.shown_ofText]
    split
    · rfl
    · rw [Path.ofText, Text.bytes_append]
      exact Path.spokenSegments_append_slash [Path.dot] _

/-- The base of a target directory says what the target directory says. -/
theorem components_base (h : '\\' ∉ target.toList) :
    components (Path.ofText (base (Path.ofText target))) = components (Path.ofText target) := by
  rw [components_base_of_slashes, slashComponents_of_not_mem h]

/-- The base of a relative target directory begins with a component of dots. -/
theorem base_begins (h : '\\' ∉ target.toList)
    (hrelative : (Path.ofText target).isAbsolute = false) :
    ∃ dots more, (dots = ['.'] ∨ dots = ['.', '.'])
      ∧ (base (Path.ofText target)).toList = dots ++ more ∧ ∀ c ∈ more.head?, c = '/' := by
  rw [base_ofText h, hrelative, Bool.false_or]
  cases hdots : startsWithDots (Path.ofText target) with
  | false =>
    rw [if_neg Bool.false_ne_true]
    exact ⟨['.'], '/' :: target.toList, Or.inl rfl, String.toList_append,
      fun c hc => by cases hc; rfl⟩
  | true =>
    rw [if_pos rfl]
    exact toList_of_startsWithDots hdots

end PluginPath

namespace Installation

open PluginPath

/-- **A plugin path points at the copy of its rule.**  Resolved in the project it has the components
of the place where the rule's file is copied to.  It begins at the root exactly if the target
directory does, and otherwise says that it is relative. -/
theorem components_of_plugin (i : Installation) (r : Rule) (target : String)
    (h : '\\' ∉ target.toList) :
    (i.projectRoot.join (Path.ofText (ofRule (base (Path.ofText target)) r))).components
        = ((i.destination (Path.ofText target)).child r.fileName).components
      ∧ ("/".toList <+: (ofRule (base (Path.ofText target)) r).toList
        ↔ (Path.ofText target).isAbsolute = true)
      ∧ ((Path.ofText target).isAbsolute = false →
        "./".toList <+: (ofRule (base (Path.ofText target)) r).toList
          ∨ "../".toList <+: (ofRule (base (Path.ofText target)) r).toList) := by
  obtain ⟨habsolute, hsegments⟩ :=
    Path.components_eq_iff.mp (components_ofRule (base (Path.ofText target)) r)
  obtain ⟨hbase, hnames⟩ := Path.components_eq_iff.mp (components_base h)
  rw [hbase] at habsolute
  rw [hnames] at hsegments
  refine ⟨?_, ?_, ?_⟩
  · rw [Path.components_child _ r.isName_fileName, destination, Path.components_join, habsolute]
    cases htarget : (Path.ofText target).isAbsolute with
    | true =>
      rw [if_pos rfl, Path.join, htarget, if_pos rfl, htarget]
      exact Path.components_eq_iff.mpr ⟨habsolute.trans htarget, hsegments⟩
    | false =>
      rw [if_neg Bool.false_ne_true, Path.isAbsolute_join htarget, Path.spokenSegments_join htarget,
        hsegments, List.append_assoc]
  · rw [← habsolute, Path.isAbsolute_ofText_iff, List.head?_eq_some_iff]
    exact exists_congr fun rest => eq_comm
  · intro hrelative
    obtain ⟨dots, more, hdots, hbase, hmore⟩ := base_begins h hrelative
    rcases hdots with rfl | rfl
    · exact Or.inl (ofRule_begins (by decide) (by decide) hmore hbase)
    · exact Or.inr (ofRule_begins (by decide) (by decide) hmore hbase)

/-- Above the project, with slashes and dots that say nothing. -/
theorem components_of_plugin_aboveProject :
    '\\' ∉ "..//lint/./rules//".toList
      ∧ (Path.ofText "..//lint/./rules//").isAbsolute = false
      ∧ (((⟨⟨Path.ofText "rules"⟩, Path.ofText "/home/project"⟩ : Installation).projectRoot.join
          (Path.ofText (ofRule (base (Path.ofText "..//lint/./rules//")) .propMutation))).components
        = (((⟨⟨Path.ofText "rules"⟩, Path.ofText "/home/project"⟩ : Installation).destination
          (Path.ofText "..//lint/./rules//")).child Rule.propMutation.fileName).components) := by
  refine ⟨by decide, by decide, ?_⟩
  exact (components_of_plugin ⟨⟨Path.ofText "rules"⟩, Path.ofText "/home/project"⟩ .propMutation
    "..//lint/./rules//" (by decide)).1

end Installation

end RulePack
