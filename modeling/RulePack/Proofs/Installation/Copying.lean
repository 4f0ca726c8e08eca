import RulePack.Installation
import RulePack.Proofs.Disk.Growing
import RulePack.Proofs.Disk.Resolving

/-!
# Copying the files of rules

* `Rule.isName_fileName`, `Rule.fileName_injective` — the names of the rules' files;
* `Installation.Overlooks` — a rule's file lies in the destination already, and is not found to;
* `Installation.Copies` — what copying one file does;
* `Installation.place_preserves` — what every copy preserves, copying all files preserves, also if
  it fails half way;
* `Installation.Settled` — a rule's file is where it should be;
* `Installation.place_eq_ok` — copying settles the rules that are in the bundle;
* `Installation.place_of_settled` — nothing is left to be done for settled rules;
* `Installation.Installed` — the state that a successful copy leaves behind;
* `Installation.copyRules_of_installed` — copying the rules again changes nothing.
-/

namespace RulePack

/-! ### The names of files -/

namespace Rule

theorem isName_fileName (r : Rule) : Path.IsName (Text.bytes r.fileName) := by
  cases r <;> decide

theorem fileName_injective {r s : Rule} (h : Text.bytes r.fileName = Text.bytes s.fileName) :
    r = s := by
  have hrule := ofText?_fileName r
  rw [Text.bytes_injective h, ofText?_fileName] at hrule
  exact (Option.some.inj hrule).symm

theorem fileName_not_mem_fileNames (r : Rule) : r.fileName ∉ Config.fileNames := by
  cases r <;> decide

theorem nodup_all : all.Nodup := by decide

end Rule

theorem Config.isName_of_mem_fileNames {name : String} (h : name ∈ fileNames) :
    Path.IsName (Text.bytes name) := by
  have hall : ∀ n ∈ fileNames, Path.IsName (Text.bytes n) := by decide
  exact hall name h

namespace Installation

variable {i : Installation} {destination : Path} {r : Rule} {rules : List Rule} {d d' : Disk}

/-- No link has the name of a rule's file. -/
def RulesUnlinked (d : Disk) : Prop := ∀ r : Rule, d.Unlinked (Text.bytes r.fileName)

theorem RulesUnlinked.keeps (h : RulesUnlinked d) (hkeeps : d.Keeps d') : RulesUnlinked d' :=
  fun r => hkeeps.unlinked (h r)

/-! ### One file -/

/-- The file of a rule in the bundle is the one in the destination, but that is overlooked: something
on the way lies too deep for the paths to be resolved. -/
def Overlooks (i : Installation) (destination : Path) (d : Disk) (r : Rule) : Prop :=
  d.sameFile (i.catalog.rulePath r) (destination.child r.fileName) = false
    ∧ (d.locate? (i.catalog.rulePath r)).isSome = true
    ∧ d.locate? (destination.child r.fileName) = d.locate? (i.catalog.rulePath r)

instance : Decidable (Overlooks i destination d r) := inferInstanceAs (Decidable (_ ∧ _ ∧ _))

theorem overlooks_iff : Overlooks i destination d r
    ↔ d.sameFile (i.catalog.rulePath r) (destination.child r.fileName) = false
      ∧ ∃ l, d.locate? (i.catalog.rulePath r) = some l
        ∧ d.locate? (destination.child r.fileName) = some l := by
  rw [Overlooks]
  cases d.locate? (i.catalog.rulePath r) with
  | none => simp
  | some l => simp

theorem Overlooks.keeps (h : Overlooks i destination d r) (hkeeps : d.Keeps d') :
    Overlooks i destination d' r := by
  obtain ⟨hsame, l, hsource, htarget⟩ := overlooks_iff.mp h
  exact overlooks_iff.mpr ⟨(Disk.sameFile_of_keeps hkeeps hsource htarget).trans hsame, l,
    Disk.locate?_of_keeps hkeeps hsource, Disk.locate?_of_keeps hkeeps htarget⟩

/-- Nothing is overlooked where nothing lies too deep. -/
theorem not_overlooks_of_shallow (h : d.Shallow) (destination : Path) (r : Rule) :
    ¬Overlooks i destination d r := by
  intro hoverlooks
  obtain ⟨hsame, l, hsource, htarget⟩ := overlooks_iff.mp hoverlooks
  rw [← Disk.canonical?_of_shallow h] at hsource htarget
  rw [Disk.sameFile_iff.mpr ⟨l, hsource, htarget⟩] at hsame
  cases hsame

/-- The disk `d'` is `d` with a rule's file copied from the bundle to the destination, where it was
not found to lie already.  If it does lie there, nothing is left of it. -/
structure Copies (i : Installation) (destination : Path) (r : Rule) (bundle dir : Location)
    (bytes : List UInt8) (d d' : Disk) : Prop where
  bundle_eq : d.dirOf i.catalog.rulesDir = some bundle
  dir_eq : d.dirOf destination = some dir
  source : d.entryAt (Text.bytes r.fileName :: bundle) = some (.file bytes)
  target_ne : d.entryAt (Text.bytes r.fileName :: dir) ≠ some .directory
  source_path : (i.catalog.rulePath r).refusal? = none
  target_path : (destination.child r.fileName).refusal? = none
  not_same : d.sameFile (i.catalog.rulePath r) (destination.child r.fileName) = false
  disk_eq : d' = d.put (Text.bytes r.fileName :: dir) (.file (if bundle = dir then [] else bytes))

namespace Copies

variable {bundle dir l : Location} {bytes : List UInt8}
  (h : Copies i destination r bundle dir bytes d d')
include h

theorem keeps (hlink : RulesUnlinked d) : d.Keeps d' := by
  rw [h.disk_eq]
  refine Disk.Keeps.put_file ?_ (hlink r dir) _
  simpa [Disk.isDirectoryAt] using h.target_ne

theorem spares {name : Segment} (hname : name ≠ Text.bytes r.fileName) : d.Spares d' name := by
  rw [h.disk_eq]
  exact Disk.Spares.put hname dir _

theorem entryAt_target : d'.entryAt (Text.bytes r.fileName :: dir)
    = some (.file (if bundle = dir then [] else bytes)) := by
  rw [h.disk_eq]
  exact Disk.entryAt_put_self d (List.cons_ne_nil _ _) _

theorem entryAt_of_ne (hl : l ≠ Text.bytes r.fileName :: dir) : d'.entryAt l = d.entryAt l := by
  rw [h.disk_eq]
  exact Disk.entryAt_put_of_ne d hl _

variable (hlink : RulesUnlinked d)
include hlink

theorem locate?_target :
    d'.locate? (destination.child r.fileName) = some (Text.bytes r.fileName :: dir) := by
  have hkeeps := h.keeps hlink
  refine (Disk.locate?_child_eq_some r.isName_fileName (hlink.keeps hkeeps r)).mpr
    ⟨Path.not_mem_of_refusal? h.target_path, dir, Disk.dirOf_of_keeps hkeeps h.dir_eq, rfl, ?_⟩
  simp [h.entryAt_target]

/-- A file that is copied to itself has been overlooked. -/
theorem overlooks (hdir : bundle = dir) : Overlooks i destination d' r := by
  subst hdir
  have hleads : ∀ p, d.dirOf p = some bundle → (p.child r.fileName).refusal? = none →
      d.locate? (p.child r.fileName) = some (Text.bytes r.fileName :: bundle) := by
    intro p hp hrefusal
    exact (Disk.locate?_child_eq_some r.isName_fileName (hlink r)).mpr
      ⟨Path.not_mem_of_refusal? hrefusal, bundle, hp, rfl, by simp [h.source]⟩
  have hoverlooks : Overlooks i destination d r := overlooks_iff.mpr
    ⟨h.not_same, _, hleads _ h.bundle_eq h.source_path, hleads _ h.dir_eq h.target_path⟩
  exact hoverlooks.keeps (h.keeps hlink)

end Copies

/-- What is overlooked lies in the bundle and in the destination, which are one directory. -/
theorem Overlooks.eq_of_dirOf {bundle dir : Location} (h : Overlooks i destination d r)
    (hlink : RulesUnlinked d) (hbundle : d.dirOf i.catalog.rulesDir = some bundle)
    (hdir : d.dirOf destination = some dir) : bundle = dir := by
  have hname := r.isName_fileName
  obtain ⟨-, l, hsource, htarget⟩ := overlooks_iff.mp h
  obtain ⟨-, bundle', hbundle', rfl, -⟩ := (Disk.locate?_child_eq_some hname (hlink r)).mp hsource
  obtain ⟨-, dir', hdir', hl, -⟩ := (Disk.locate?_child_eq_some hname (hlink r)).mp htarget
  cases hbundle.symm.trans hbundle'
  cases hdir.symm.trans hdir'
  exact (List.cons.inj hl).2

theorem holdsRule_iff (hlink : RulesUnlinked d) {bundle : Location}
    (hbundle : d.dirOf i.catalog.rulesDir = some bundle) (r : Rule) :
    i.catalog.holdsRule d r = true ↔ (i.catalog.rulePath r).refusal? = none
      ∧ ∃ bytes, d.entryAt (Text.bytes r.fileName :: bundle) = some (.file bytes) := by
  have h := Disk.isFile_child_iff (p := i.catalog.rulesDir) r.isName_fileName (hlink r)
  simp only [hbundle, Option.some.injEq, exists_and_left, exists_eq_left'] at h
  exact h

/-- The bundle has the file of a rule as before if no file has come to its place in the bundle. -/
theorem holdsRule_congr (hlink : RulesUnlinked d) (hkeeps : d.Keeps d') {bundle : Location}
    (hbundle : d.dirOf i.catalog.rulesDir = some bundle)
    (hsame : ∀ bytes, d'.entryAt (Text.bytes r.fileName :: bundle) = some (.file bytes) →
      ∃ old, d.entryAt (Text.bytes r.fileName :: bundle) = some (.file old)) :
    i.catalog.holdsRule d' r = i.catalog.holdsRule d r := by
  have hbundle' := Disk.dirOf_of_keeps hkeeps hbundle
  rw [Bool.eq_iff_iff, holdsRule_iff (hlink.keeps hkeeps) hbundle', holdsRule_iff hlink hbundle]
  refine and_congr_right fun _ => ⟨fun h => ?_, fun h => ?_⟩
  · obtain ⟨bytes, he⟩ := h
    exact hsame bytes he
  · obtain ⟨bytes, he⟩ := h
    exact hkeeps.file he

/-- A copy brings no file to the bundle. -/
theorem Copies.holdsRule {bundle dir : Location} {bytes : List UInt8}
    (h : Copies i destination r bundle dir bytes d d') (hlink : RulesUnlinked d) (s : Rule) :
    i.catalog.holdsRule d' s = i.catalog.holdsRule d s := by
  refine holdsRule_congr hlink (h.keeps hlink) h.bundle_eq fun new he => ?_
  by_cases hl : Text.bytes s.fileName :: bundle = Text.bytes r.fileName :: dir
  · exact ⟨bytes, by rw [(List.cons.inj hl).1, h.source]⟩
  · exact ⟨new, by rw [← h.entryAt_of_ne hl, he]⟩

/-- The target of a copy is emptied first, which is the source if both lie in one directory. -/
theorem bytesAt_emptied {name : Segment} {bundle : Location} {bytes : List UInt8}
    (h : d.entryAt (name :: bundle) = some (.file bytes)) (dir : Location) :
    (d.put (name :: dir) (.file [])).bytesAt (name :: bundle)
      = if bundle = dir then [] else bytes := by
  rw [Disk.bytesAt]
  by_cases hne : bundle = dir
  · rw [hne, Disk.entryAt_put_self d (List.cons_ne_nil _ _), if_pos rfl]
  · rw [Disk.entryAt_put_of_ne d (by simpa using hne), h, if_neg hne]

/-- What copying a file does, if the bundle has the file and it is not found to lie in the
destination. -/
theorem copies_of_copy (hlink : RulesUnlinked d)
    (hsame : d.sameFile (i.catalog.rulePath r) (destination.child r.fileName) = false)
    (h : d.copy (i.catalog.rulePath r) (destination.child r.fileName) = .ok d')
    (hfile : d.isFile (i.catalog.rulePath r) = true) :
    ∃ bundle dir bytes, Copies i destination r bundle dir bytes d d' := by
  have hname := r.isName_fileName
  obtain ⟨hsource, bundle, bytes, hbundle, he⟩ :=
    (Disk.isFile_child_iff hname (hlink r)).mp hfile
  have hfind : d.find (i.catalog.rulePath r) = .ok (Text.bytes r.fileName :: bundle) :=
    (Disk.find_child_eq_ok hname (hlink r)).mpr ⟨hsource, bundle, hbundle, rfl, by simp [he]⟩
  rw [Disk.copy, hfind] at h
  cases htarget : d.target (destination.child r.fileName) with
  | error fault =>
    rw [htarget] at h
    cases h
  | ok m =>
    obtain ⟨hpath, dir, hdir, rfl, hm⟩ := (Disk.target_child_eq_ok hname (hlink r)).mp htarget
    simp only [htarget, bytesAt_emptied he, Disk.put_put, Except.ok.injEq] at h
    exact ⟨bundle, dir, bytes, hbundle, hdir, he, hm, hsource, hpath, hsame, h.symm⟩

/-! ### All files -/

/-- What every copy of a file that is there preserves, copying all files preserves, whether or not
it fails half way. -/
theorem place_preserves {P : Disk → Prop} (hlink : RulesUnlinked d)
    (hstep : ∀ r ∈ rules, ∀ bundle dir bytes d d', RulesUnlinked d →
      Copies i destination r bundle dir bytes d d' → P d → P d')
    (h : P d) : P (i.place destination rules d).disk := by
  induction rules generalizing d with
  | nil => exact h
  | cons r rest ih =>
    have hrest := fun s hs => hstep s (List.mem_cons_of_mem r hs)
    cases hfile : d.isFile (i.catalog.rulePath r) with
    | false =>
      rw [place_absent hfile]
      exact ih hlink hrest h
    | true =>
      cases hsame : d.sameFile (i.catalog.rulePath r) (destination.child r.fileName) with
      | true =>
        rw [place_inPlace hfile hsame]
        exact ih hlink hrest h
      | false =>
        cases hcopy : d.copy (i.catalog.rulePath r) (destination.child r.fileName) with
        | error fault =>
          rw [place_failed hfile hsame hcopy]
          exact h
        | ok d' =>
          obtain ⟨bundle, dir, bytes, hcopies⟩ := copies_of_copy hlink hsame hcopy hfile
          rw [place_copied hfile hsame hcopy]
          exact ih (hlink.keeps (hcopies.keeps hlink)) hrest
            (hstep r List.mem_cons_self bundle dir bytes d d' hlink hcopies h)

theorem keeps_place (hlink : RulesUnlinked d) : d.Keeps (i.place destination rules d).disk :=
  place_preserves hlink
    (fun _ _ _ _ _ _ _ hlink' hcopies hkeeps => hkeeps.trans (hcopies.keeps hlink'))
    (Disk.Keeps.refl d)

/-- Only entries that are named like the rules' files change. -/
theorem spares_place (hlink : RulesUnlinked d) {name : Segment}
    (hname : ∀ r ∈ rules, name ≠ Text.bytes r.fileName) :
    d.Spares (i.place destination rules d).disk name :=
  place_preserves (P := fun d' => d.Spares d' name) hlink
    (fun r hr _ _ _ _ _ _ hcopies hspares => hspares.trans (hcopies.spares (hname r hr)))
    (Disk.Spares.refl d name)

/-- No file comes to the bundle. -/
theorem holdsRule_place (hlink : RulesUnlinked d) (r : Rule) :
    i.catalog.holdsRule (i.place destination rules d).disk r = i.catalog.holdsRule d r :=
  place_preserves (P := fun d' => i.catalog.holdsRule d' r = i.catalog.holdsRule d r) hlink
    (fun _ _ _ _ _ _ _ hlink' hcopies hsame => (hcopies.holdsRule hlink' r).trans hsame) rfl

/-- The file of the rule lies in the bundle and, with the same bytes, in the destination.  If it is
one and the same file, then it is found to be that or there is nothing in it to be lost. -/
def Settled (i : Installation) (destination : Path) (d : Disk) (r : Rule) : Prop :=
  ∃ bundle dir bytes, d.dirOf i.catalog.rulesDir = some bundle ∧ d.dirOf destination = some dir
    ∧ d.entryAt (Text.bytes r.fileName :: bundle) = some (.file bytes)
    ∧ d.entryAt (Text.bytes r.fileName :: dir) = some (.file bytes)
    ∧ (i.catalog.rulePath r).refusal? = none
    ∧ 0 ∉ (destination.child r.fileName).bytes
    ∧ (d.sameFile (i.catalog.rulePath r) (destination.child r.fileName) = true
      ∨ (destination.child r.fileName).refusal? = none ∧ (bundle = dir → bytes = []))

theorem Settled.mono (h : Settled i destination d r) (hlink : RulesUnlinked d)
    (hkeeps : d.Keeps d') (hspares : d.Spares d' (Text.bytes r.fileName)) :
    Settled i destination d' r := by
  obtain ⟨bundle, dir, bytes, hbundle, hdir, hsource, htarget, hpath, hzero, hsame⟩ := h
  have hsourceAt : d.locate? (i.catalog.rulePath r) = some _ :=
    (Disk.locate?_child_eq_some r.isName_fileName (hlink r)).mpr
      ⟨Path.not_mem_of_refusal? hpath, bundle, hbundle, rfl, by simp [hsource]⟩
  have htargetAt := (Disk.locate?_child_eq_some r.isName_fileName (hlink r)).mpr
    ⟨hzero, dir, hdir, rfl, by simp [htarget]⟩
  refine ⟨bundle, dir, bytes, Disk.dirOf_of_keeps hkeeps hbundle, Disk.dirOf_of_keeps hkeeps hdir,
    ?_, ?_, hpath, hzero, ?_⟩
  · rw [hspares, hsource]
  · rw [hspares, htarget]
  · rwa [Disk.sameFile_of_keeps hkeeps hsourceAt htargetAt]

/-- Where a rule's file lies in the destination already, it is settled. -/
theorem settled_of_sameFile (hlink : RulesUnlinked d) (hfile : d.isFile (i.catalog.rulePath r) = true)
    (hsame : d.sameFile (i.catalog.rulePath r) (destination.child r.fileName) = true) :
    Settled i destination d r := by
  have hname := r.isName_fileName
  obtain ⟨l, hsource, htarget⟩ := Disk.locate?_of_sameFile hsame
  obtain ⟨-, bundle, hbundle, rfl, -⟩ :=
    (Disk.locate?_child_eq_some hname (hlink r)).mp hsource
  obtain ⟨hzero, dir, hdir, hl, -⟩ := (Disk.locate?_child_eq_some hname (hlink r)).mp htarget
  obtain ⟨hpath, bytes, he⟩ := (holdsRule_iff hlink hbundle r).mp hfile
  cases hl
  exact ⟨bundle, bundle, bytes, hbundle, hdir, he, he, hpath, hzero, Or.inl hsame⟩

/-- A copied file is settled. -/
theorem Copies.settled {bundle dir : Location} {bytes : List UInt8}
    (h : Copies i destination r bundle dir bytes d d') (hlink : RulesUnlinked d) :
    Settled i destination d' r := by
  have hkeeps := h.keeps hlink
  have hbundle := Disk.dirOf_of_keeps hkeeps h.bundle_eq
  have hdir := Disk.dirOf_of_keeps hkeeps h.dir_eq
  have hzero := Path.not_mem_of_refusal? h.target_path
  refine ⟨bundle, dir, if bundle = dir then [] else bytes, hbundle, hdir, ?_, h.entryAt_target,
    h.source_path, hzero, Or.inr ⟨h.target_path, fun hne => if_pos hne⟩⟩
  by_cases hne : bundle = dir
  · rw [hne]
    simpa [hne] using h.entryAt_target
  · rw [h.entryAt_of_ne (by simpa using hne), h.source, if_neg hne]

/-- Placing files succeeds if it settles the rules that are in the bundle. -/
theorem place_eq_ok (hlink : RulesUnlinked d) {bundle : Location}
    (hbundle : d.dirOf i.catalog.rulesDir = some bundle) (hnodup : rules.Nodup)
    {copied : List Rule} (h : (i.place destination rules d).result = .ok copied) :
    copied = rules.filter (i.catalog.holdsRule d)
      ∧ ∀ r ∈ copied, Settled i destination (i.place destination rules d).disk r := by
  induction rules generalizing d copied with
  | nil =>
    cases h
    exact ⟨rfl, by simp⟩
  | cons r rest ih =>
    obtain ⟨hr, hrest⟩ := List.nodup_cons.mp hnodup
    have hothers : ∀ s ∈ rest, Text.bytes r.fileName ≠ Text.bytes s.fileName := by
      intro s hs heq
      exact hr (Rule.fileName_injective heq ▸ hs)
    -- what happens to the other rules' files leaves the file of this one alone
    have hlater : ∀ {d : Disk}, RulesUnlinked d → Settled i destination d r →
        Settled i destination (i.place destination rest d).disk r := fun hlink' hsettled =>
      hsettled.mono hlink' (keeps_place hlink') (spares_place hlink' hothers)
    cases hfile : d.isFile (i.catalog.rulePath r) with
    | false =>
      rw [place_absent hfile] at h ⊢
      rw [List.filter_cons_of_neg (by simp [Catalog.holdsRule, hfile])]
      exact ih hlink hbundle hrest h
    | true =>
      rw [List.filter_cons_of_pos (p := i.catalog.holdsRule d) hfile]
      cases hsame : d.sameFile (i.catalog.rulePath r) (destination.child r.fileName) with
      | true =>
        rw [place_inPlace hfile hsame] at h ⊢
        obtain ⟨later, hplaced, rfl⟩ := Run.map_result_eq_ok.mp h
        obtain ⟨hfilter, hsettled⟩ := ih hlink hbundle hrest hplaced
        refine ⟨by rw [hfilter], List.forall_mem_cons.mpr ⟨?_, hsettled⟩⟩
        exact hlater hlink (settled_of_sameFile hlink hfile hsame)
      | false =>
        cases hcopy : d.copy (i.catalog.rulePath r) (destination.child r.fileName) with
        | error fault =>
          rw [place_failed hfile hsame hcopy] at h
          cases h
        | ok d' =>
          rw [place_copied hfile hsame hcopy] at h ⊢
          obtain ⟨_, _, _, hcopies⟩ := copies_of_copy hlink hsame hcopy hfile
          have hkeeps := hcopies.keeps hlink
          have hlink' := hlink.keeps hkeeps
          have hbundle' := Disk.dirOf_of_keeps hkeeps hbundle
          obtain ⟨later, hplaced, rfl⟩ := Run.map_result_eq_ok.mp h
          obtain ⟨hfilter, hsettled⟩ := ih hlink' hbundle' hrest hplaced
          have hothers' : ∀ s ∈ rest, i.catalog.holdsRule d' s = i.catalog.holdsRule d s :=
            fun s _ => hcopies.holdsRule hlink s
          refine ⟨by rw [hfilter, List.filter_congr hothers'],
            List.forall_mem_cons.mpr ⟨?_, hsettled⟩⟩
          exact hlater hlink' (hcopies.settled hlink)

/-- The file of a settled rule is not copied, or copying it changes nothing. -/
theorem Settled.copy (hlink : RulesUnlinked d) (h : Settled i destination d r) :
    d.sameFile (i.catalog.rulePath r) (destination.child r.fileName) = true
      ∨ d.sameFile (i.catalog.rulePath r) (destination.child r.fileName) = false
        ∧ d.copy (i.catalog.rulePath r) (destination.child r.fileName) = .ok d := by
  have hname := r.isName_fileName
  obtain ⟨bundle, dir, bytes, hbundle, hdir, hsource, htarget, hsourcePath, -, hsame⟩ := h
  cases hfound : d.sameFile (i.catalog.rulePath r) (destination.child r.fileName) with
  | true => exact Or.inl rfl
  | false =>
    rw [hfound] at hsame
    obtain ⟨hpath, hempty⟩ := hsame.resolve_left Bool.noConfusion
    have hfind : d.find (i.catalog.rulePath r) = .ok (Text.bytes r.fileName :: bundle) :=
      (Disk.find_child_eq_ok hname (hlink r)).mpr
        ⟨hsourcePath, bundle, hbundle, rfl, by simp [hsource]⟩
    have hwrite := (Disk.target_child_eq_ok hname (hlink r)).mpr
      ⟨hpath, dir, hdir, rfl, by simp [htarget]⟩
    have hleft : (if bundle = dir then [] else bytes) = bytes := by
      split
      · rename_i hne
        exact (hempty hne).symm
      · rfl
    refine Or.inr ⟨rfl, ?_⟩
    rw [Disk.copy, hfind, hwrite]
    simp only [bytesAt_emptied hsource, hleft, Disk.put_put]
    rw [Disk.put_of_entryAt (List.cons_ne_nil _ _) htarget]

/-- For settled rules nothing is left to be done. -/
theorem place_of_settled (hlink : RulesUnlinked d)
    (h : ∀ r ∈ rules, i.catalog.holdsRule d r = true → Settled i destination d r) :
    (i.place destination rules d).disk = d ∧ (i.place destination rules d).result
      = .ok (rules.filter (i.catalog.holdsRule d)) := by
  induction rules with
  | nil => exact ⟨rfl, rfl⟩
  | cons r rest ih =>
    obtain ⟨hr, hrest⟩ := List.forall_mem_cons.mp h
    obtain ⟨hdisk, hresult⟩ := ih hrest
    cases hfile : d.isFile (i.catalog.rulePath r) with
    | false =>
      rw [place_absent hfile, List.filter_cons_of_neg (by simp [Catalog.holdsRule, hfile])]
      exact ⟨hdisk, hresult⟩
    | true =>
      rw [List.filter_cons_of_pos (p := i.catalog.holdsRule d) hfile]
      rcases (hr hfile).copy hlink with hsame | ⟨hsame, hcopy⟩
      · rw [place_inPlace hfile hsame]
        exact ⟨hdisk, Run.map_result_eq_ok.mpr ⟨_, hresult, rfl⟩⟩
      · rw [place_copied hfile hsame hcopy]
        exact ⟨hdisk, Run.map_result_eq_ok.mpr ⟨_, hresult, rfl⟩⟩

/-! ### The destination -/

/-- Only directories to which the destination and the paths above it lead are made. -/
theorem growsAlong_prepare (destination : Path) (d : Disk) :
    Disk.GrowsAlong (destination :: destination.strictAncestors) d (prepare destination d).disk := by
  rw [prepare]
  split
  · exact Disk.GrowsAlong.refl _ d
  · simp only
    split
    · exact Disk.growsAlong_makeFrom _ d
    · exact Disk.growsAlong_makeFrom _ d

theorem grows_prepare (destination : Path) (d : Disk) : d.Grows (prepare destination d).disk :=
  (growsAlong_prepare destination d).grows

theorem refusal?_of_holds {p : Path} (h : d.holds p = true) : p.refusal? = none := by
  rw [Disk.holds, Disk.entry?] at h
  cases hfind : d.find p with
  | error fault =>
    rw [hfind] at h
    cases h
  | ok l => exact (Disk.find_eq_ok.mp hfind).1

/-- A destination that is ready can be walked to, unless it is the empty path. -/
theorem refusal?_of_prepare (h : (prepare destination d).result = .ok ()) :
    destination.isEmpty = true ∨ destination.refusal? = none := by
  rw [prepare] at h
  split at h
  · rename_i hholds
    exact Or.inr (refusal?_of_holds hholds)
  · simp only at h
    split at h
    · cases h
    · rename_i hfault
      exact Disk.refusal?_of_makeFrom hfault

/-- A directory that is there need not be prepared. -/
theorem prepare_of_dirOf (hpath : destination.isEmpty = true ∨ destination.refusal? = none)
    {dir : Location} (hdir : d.dirOf destination = some dir) :
    (prepare destination d).disk = d ∧ (prepare destination d).result = .ok () := by
  have hholds : destination.refusal? = none → d.holds destination = true := by
    intro hrefusal
    have hdirectory := Disk.isDirectory_iff.mpr ⟨hrefusal, dir, hdir⟩
    rw [Disk.isDirectory, beq_iff_eq] at hdirectory
    rw [Disk.holds, hdirectory]
    rfl
  rw [prepare]
  split
  · exact ⟨rfl, rfl⟩
  · rename_i hvacant
    have hempty := hpath.resolve_right fun hrefusal => hvacant (hholds hrefusal)
    have hmade : d.makeDirectories destination = ⟨d, none⟩ := by
      rw [Disk.makeDirectories, Disk.makeFrom, if_pos hempty]
    simp only [hmade]
    exact ⟨rfl, rfl⟩

/-! ### Both -/

theorem someCopied_eq_ok {copied : List Rule}
    (h : (someCopied rules d).result = .ok copied) : rules = copied ∧ copied ≠ [] := by
  cases rules with
  | nil => cases h
  | cons r rest =>
    cases h
    exact ⟨rfl, List.cons_ne_nil r rest⟩

theorem someCopied_disk (rules : List Rule) (d : Disk) : (someCopied rules d).disk = d := by
  cases rules with
  | nil => rfl
  | cons r rest => rfl

/-- How far copying the rules gets. -/
theorem copyRules_disk (i : Installation) (dir : Path) (d : Disk) :
    (i.copyRules dir d).disk = d
      ∨ (i.copyRules dir d).disk = (prepare (i.destination dir) d).disk
      ∨ (i.copyRules dir d).disk
        = (i.place (i.destination dir) Rule.all (prepare (i.destination dir) d).disk).disk := by
  rw [copyRules]
  split
  · right
    rw [Run.andThen_disk_of_still someCopied_disk]
    cases hprepare : (prepare (i.destination dir) d).result with
    | error failure => exact Or.inl (by rw [Run.andThen_of_error hprepare])
    | ok u => exact Or.inr (by rw [Run.andThen_of_ok hprepare])
  · exact Or.inl rfl

theorem keeps_copyRules (hlink : RulesUnlinked d) (dir : Path) :
    d.Keeps (i.copyRules dir d).disk := by
  have hprepare := (grows_prepare (i.destination dir) d).keeps
  rcases copyRules_disk i dir d with h | h | h <;> rw [h]
  · exact Disk.Keeps.refl d
  · exact hprepare
  · exact hprepare.trans (keeps_place (hlink.keeps hprepare))

/-- Files that are not named like a rule's file are left alone. -/
theorem entryAt_copyRules (hlink : RulesUnlinked d) (dir : Path) {name : Segment}
    (hname : ∀ r : Rule, name ≠ Text.bytes r.fileName) {l : Location} {bytes : List UInt8} :
    (i.copyRules dir d).disk.entryAt (name :: l) = some (.file bytes)
      ↔ d.entryAt (name :: l) = some (.file bytes) := by
  have hgrows := grows_prepare (i.destination dir) d
  have hprepare := hgrows.entryAt_eq_some_iff (l := name :: l) (e := .file bytes) Entry.noConfusion
  rcases copyRules_disk i dir d with h | h | h <;> rw [h]
  · exact hprepare
  · rw [spares_place (hlink.keeps hgrows.keeps) (fun r _ => hname r)]
    exact hprepare

/-- The three stages of a copy that succeeds. -/
theorem stages_of_copyRules {dir : Path} {copied : List Rule}
    (h : (i.copyRules dir d).result = .ok copied) :
    i.catalog.isBundled d = true ∧ (prepare (i.destination dir) d).result = .ok ()
      ∧ (i.place (i.destination dir) Rule.all (prepare (i.destination dir) d).disk).result
        = .ok copied
      ∧ copied ≠ []
      ∧ (i.copyRules dir d).disk
        = (i.place (i.destination dir) Rule.all (prepare (i.destination dir) d).disk).disk := by
  rw [copyRules] at h ⊢
  split at h
  · rename_i hbundled
    obtain ⟨placed, hplaced, hsome⟩ := Run.andThen_result_eq_ok.mp h
    obtain ⟨u, hprepare, hplace⟩ := Run.andThen_result_eq_ok.mp hplaced
    obtain ⟨rfl, hne⟩ := someCopied_eq_ok hsome
    rw [if_pos hbundled, Run.andThen_disk_of_still someCopied_disk, Run.andThen_of_ok hprepare]
    exact ⟨hbundled, hprepare, hplace, hne, rfl⟩
  · cases h

/-- What copying the rules achieves, if it succeeds. -/
structure Installed (i : Installation) (dir : Path) (copied : List Rule) (d : Disk) : Prop where
  bundled : i.catalog.isBundled d = true
  path : (i.destination dir).isEmpty = true ∨ (i.destination dir).refusal? = none
  copied_ne_nil : copied ≠ []
  copied_eq : copied = Rule.all.filter (i.catalog.holdsRule d)
  settled : ∀ r ∈ copied, Settled i (i.destination dir) d r

theorem installed_of_copyRules {dir : Path} (hlink : RulesUnlinked d) {copied : List Rule}
    (h : (i.copyRules dir d).result = .ok copied) :
    Installed i dir copied (i.copyRules dir d).disk := by
  obtain ⟨hbundled, hprepare, hplace, hne, hdisk⟩ := stages_of_copyRules h
  have hkeeps := keeps_copyRules (i := i) hlink dir
  have hready := (grows_prepare (i.destination dir) d).keeps
  have hlink' := hlink.keeps hready
  obtain ⟨hpath, bundle, hbundle⟩ := Disk.isDirectory_iff.mp hbundled
  have hbundle' := Disk.dirOf_of_keeps hready hbundle
  have hbundle'' := Disk.dirOf_of_keeps hkeeps hbundle
  obtain ⟨hcopied, hsettled⟩ := place_eq_ok hlink' hbundle' Rule.nodup_all hplace
  refine ⟨Disk.isDirectory_iff.mpr ⟨hpath, bundle, hbundle''⟩, refusal?_of_prepare hprepare, hne,
    ?_, ?_⟩
  · rw [hcopied, hdisk]
    exact List.filter_congr fun r _ => (holdsRule_place hlink' r).symm
  · rwa [hdisk]

theorem Installed.mono {dir : Path} {copied : List Rule} (hlink : RulesUnlinked d)
    (h : Installed i dir copied d) (hkeeps : d.Keeps d')
    (hspares : ∀ r : Rule, d.Spares d' (Text.bytes r.fileName)) : Installed i dir copied d' := by
  obtain ⟨hpath, bundle, hbundle⟩ := Disk.isDirectory_iff.mp h.bundled
  have hbundle' := Disk.dirOf_of_keeps hkeeps hbundle
  refine ⟨Disk.isDirectory_iff.mpr ⟨hpath, bundle, hbundle'⟩, h.path, h.copied_ne_nil, ?_,
    fun r hr => (h.settled r hr).mono hlink hkeeps (hspares r)⟩
  rw [h.copied_eq]
  refine List.filter_congr fun r _ => (holdsRule_congr hlink hkeeps hbundle fun bytes he => ?_).symm
  exact ⟨bytes, by rw [← hspares r bundle, he]⟩

/-- Where the rules are installed already, copying them changes nothing and gives them again. -/
theorem copyRules_of_installed {dir : Path} {copied : List Rule} (hlink : RulesUnlinked d)
    (h : Installed i dir copied d) :
    (i.copyRules dir d).disk = d ∧ (i.copyRules dir d).result = .ok copied := by
  have hdir : ∃ m, d.dirOf (i.destination dir) = some m := by
    obtain ⟨r, hr⟩ := List.exists_mem_of_ne_nil copied h.copied_ne_nil
    obtain ⟨-, m, -, -, hm, -⟩ := h.settled r hr
    exact ⟨m, hm⟩
  obtain ⟨m, hm⟩ := hdir
  obtain ⟨hready, hprepare⟩ := prepare_of_dirOf h.path hm
  have hsettled : ∀ r ∈ Rule.all, i.catalog.holdsRule d r = true →
      Settled i (i.destination dir) d r := by
    intro r hr hholds
    refine h.settled r ?_
    rw [h.copied_eq]
    exact List.mem_filter.mpr ⟨hr, hholds⟩
  obtain ⟨hplaced, hplace⟩ := place_of_settled hlink hsettled
  rw [← h.copied_eq] at hplace
  have hsome : ∀ d', (someCopied copied d').result = .ok copied := by
    intro d'
    cases hcopied : copied with
    | nil => exact absurd hcopied h.copied_ne_nil
    | cons r rest => rfl
  rw [copyRules, if_pos h.bundled]
  constructor
  · rw [Run.andThen_disk_of_still someCopied_disk, Run.andThen_of_ok hprepare]
    simp only [hready, hplaced]
  · refine Run.andThen_result_eq_ok.mpr ⟨copied, ?_, hsome _⟩
    exact Run.andThen_result_eq_ok.mpr ⟨(), hprepare, by rw [hready, hplace]⟩

end Installation

end RulePack
