import RulePack.Proofs.Config.RoundTrip
import RulePack.Proofs.Plugin.Merging

/-!
# Records that are pasted

A list of plugins is printed as a record for a reader who has to register it by hand.  The typed
reader, the reader of comments and the reader of configurations all take the text for what it is,
whatever the texts of the list hold.

* `PluginList.readTexts_print`, `PluginList.readRecord_print` — the typed reader on a printed list and
  on a printed record;
* `PluginList.read_block` — it gives the list of a record back;
* `PluginList.strip_block` — a record holds no comment;
* `PluginList.parse_block` — the configuration that a record is;
* `PluginList.block_pasteable` — all of this, and what is merged into that configuration.
-/

namespace RulePack.PluginList

open Json

/-! ### The typed reader -/

theorem readText_print (text : String) : ReadsAs readText (string text) text := by
  intro level rest _
  obtain ⟨inside, hquoted, hread⟩ := readString_quoted text rest
  rw [print, hquoted, readText, skipBlanks_cons rfl]
  simp only [if_true, hread, Reading.mapValue_ok, String.ofList_toList]

/-- A printed list is read back text by text. -/
theorem readTexts_print (plugins : List String) :
    ReadsAs readTexts (strings plugins) plugins := by
  intro level rest _
  obtain ⟨inside, hprint, hread⟩ := elements_print string
    (fun text (_ : text ∈ plugins) => ⟨.string text, readText_print text⟩) level rest
  rw [strings, hprint, readTexts, skipBlanks_cons rfl]
  simp only [if_true, hread]

theorem readTexts_blank {c : Char} (hc : isBlank c = true) (cs : List Char) :
    readTexts (c :: cs) = readTexts cs := by
  rw [readTexts, readTexts, skipBlanks_blank hc]

/-- The member of a record is read back from behind the opening quote of its key. -/
theorem readMember_print (plugins : List String) (level : Nat) {rest : List Char}
    (hrest : Behind rest) :
    readMember none (field.toList.flatMap escaped
      ++ '"' :: ':' :: ' ' :: (print level (strings plugins) ++ rest)) = .ok (some plugins, rest) := by
  rw [readMember, readString_flatMap_escaped, Reading.andThen_ok, String.ofList_toList, colon,
    skipBlanks_cons rfl]
  simp only [if_true, Option.isSome_none, Bool.false_eq_true, if_false, Reading.andThen_ok]
  rw [readTexts_blank rfl, readTexts_print plugins level rest hrest, Reading.mapValue_ok]

/-- A printed record is read back. -/
theorem readRecord_print (plugins : List String) : ReadsAs readRecord (record plugins) plugins := by
  intro level rest _
  have hmember := readMember_print plugins (level + 1)
    (behind_newLine level ('\x7d' :: rest))
  have hclose (fuel : Nat) : readMembers (fuel + 1) (some plugins)
      (newLine level ++ '\x7d' :: rest) = .ok (plugins, rest) := by
    rw [readMembers, skipBlanks_newLine, skipBlanks_cons rfl]
    rfl
  rw [record, print, printMembers, quoted]
  simp only [List.cons_append, List.append_assoc, List.nil_append]
  rw [readRecord, skipBlanks_cons rfl]
  simp only [if_true]
  rw [readObject, skipBlanks_newLine, skipBlanks_cons rfl]
  simp only [if_true]
  rw [hmember, Reading.andThen_ok, hclose]
  rfl

theorem read_block (plugins : List String) : read (block plugins) = .ok plugins := by
  have hread := readRecord_print plugins 0 [] behind_nil
  rw [List.append_nil] at hread
  rw [read, block, render, String.toList_ofList, readAll, hread]
  rfl

/-! ### The configuration that a record is -/

theorem record_fits (plugins : List String) : Fits depthLimit (record plugins) := by
  have hmember : ∀ m ∈ [(field, strings plugins)], Fits 1 m.2 := by
    simpa using strings_fits plugins
  have hkeys : (Members.keys [(field, strings plugins)]).Nodup := by
    show [field].Nodup
    decide
  exact (Fits.object hkeys hmember).mono (by decide)

theorem record_whole (plugins : List String) : Whole (record plugins) :=
  .object (by simpa using strings_whole plugins)

theorem strip_block (plugins : List String) : Comment.strip (block plugins) = block plugins :=
  Comment.strip_render (record_fits plugins)

theorem plugins_record (path : Path) (plugins : List String) :
    Config.plugins ⟨path, [(field, strings plugins)]⟩ = .ok plugins :=
  Config.plugins_eq_ok.mpr (Config.pluginsOf_of_strings rfl)

/-- A record is a configuration that has nothing but plugins. -/
theorem parse_block (path : Path) (plugins : List String) :
    Config.parse path (block plugins) = .ok ⟨path, [(field, strings plugins)]⟩ := by
  refine Config.parse_eq_ok.mpr ⟨rfl, ?_, plugins, plugins_record path plugins⟩
  rw [strip_block]
  exact read_render (record_fits plugins) (record_whole plugins)

/-- **A printed record can be pasted.**  Whatever the texts of a list are, the record that is printed
for it is read as the record of that list, holds no comment, and is a configuration with that list of
plugins and no other key.  Merging plugins into that configuration never fails, and adds nothing
exactly if all of them are in the list. -/
theorem block_pasteable (plugins : List String) :
    read (block plugins) = .ok plugins ∧ Comment.strip (block plugins) = block plugins
      ∧ ∀ path, ∃ c, Config.parse path (block plugins) = .ok c
        ∧ c.members.keys = [field] ∧ c.plugins = .ok plugins
        ∧ ∀ more, ∃ c' added, c.merge more = .ok (c', added)
          ∧ (added = [] ↔ more ⊆ plugins) := by
  refine ⟨read_block plugins, strip_block plugins, fun path => ?_⟩
  have hplugins := plugins_record path plugins
  refine ⟨_, parse_block path plugins, rfl, hplugins, fun more => ?_⟩
  exact ⟨_, _, Config.merge_of_plugins hplugins more, missing_merge_eq_nil_iff⟩

/-- A list whose texts hold comment marks, a quote, a backslash and control characters. -/
def markedList : List String := ["./a//b.grit", "/*\"\\\n\x01*/", ""]

theorem block_pasteable_markedList :
    block markedList = "\x7b\n  \"plugins\": [\n    \"./a//b.grit\",\n"
        ++ "    \"/*\\\"\\\\\\n\\u0001*/\",\n    \"\"\n  ]\n\x7d"
      ∧ read (block markedList) = .ok markedList
      ∧ ∃ c c', Config.parse (Path.ofText "biome.json") (block markedList) = .ok c
        ∧ c.plugins = .ok markedList ∧ c.merge ["", "./a//b.grit", ""] = .ok (c', []) := by
  have htext : block markedList = "\x7b\n  \"plugins\": [\n    \"./a//b.grit\",\n"
      ++ "    \"/*\\\"\\\\\\n\\u0001*/\",\n    \"\"\n  ]\n\x7d" := by decide +kernel
  have hsub : ["", "./a//b.grit", ""] ⊆ markedList := by decide
  obtain ⟨hread, -, hparse⟩ := block_pasteable markedList
  obtain ⟨c, hc, -, hplugins, hmerge⟩ := hparse (Path.ofText "biome.json")
  obtain ⟨c', added, hmerged, hnone⟩ := hmerge ["", "./a//b.grit", ""]
  rw [hnone.mpr hsub] at hmerged
  exact ⟨htext, hread, c, c', hc, hplugins, hmerged⟩

end RulePack.PluginList
