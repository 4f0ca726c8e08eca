import RulePack.Proofs.Installation.Registering

/-!
# What an installation does to a disk

* `Installation.Effect` — what copying rules does at a location: nothing, or a directory is made on
  the way to the destination, or the file of a rule is copied there, or lost by a copy to itself;
* `Installation.effect_copyRules` — it does nothing else anywhere, whether or not it succeeds;
* `Installation.hasFile_of_copied`, `Installation.hasFile_of_copied_of_shallow` — what a copied rule has
  in the destination;
* `Installation.copyRules_faithful` — a copy that succeeds has the bundle's files, byte for byte, but
  for those that were overlooked to lie in the destination already;
* `Installation.hasFile_install`, `Installation.hasFile_install_of_shallow` — what the bundle has after
  an installation;
* `Installation.install_keeps_bundle` — no installation changes any other files of the bundle.
-/

namespace RulePack

theorem Disk.unlinked_of_entries {d : Disk} {name : Segment}
    (h : ∀ l target, (l, Entry.link target) ∈ d.entries → l.head? ≠ some name) :
    d.Unlinked name := by
  intro m target he
  exact h _ target (mem_entries_of_entryAt he Entry.noConfusion) rfl

namespace Installation

variable {i : Installation} {destination : Path} {r : Rule} {rules copied : List Rule}
  {d d' d'' : Disk} {l bundle : Location} {bytes : List UInt8}

/-! ### One location -/

/-- What copying rules to a destination does at a location. -/
inductive Effect (i : Installation) (destination : Path) (d d' : Disk) (l : Location) : Prop
  | untouched : d'.entryAt l = d.entryAt l → Effect i destination d d' l
  /-- A directory has been made, to which the destination or a path above it leads. -/
  | made {p : Path} : p ∈ destination :: destination.strictAncestors → d'.locate? p = some l →
      d.entryAt l = none → d'.entryAt l = some .directory → Effect i destination d d' l
  /-- The file in the destination has become a copy of the one in the bundle. -/
  | copied {r : Rule} {bytes : List UInt8} : d.readBytes (i.catalog.rulePath r) = .ok bytes →
      d'.locate? (destination.child r.fileName) = some l → d'.entryAt l = some (.file bytes) →
      Effect i destination d d' l
  /-- The file in the bundle has been copied to itself, and nothing is left of it. -/
  | lost {r : Rule} {bytes : List UInt8} : d.readBytes (i.catalog.rulePath r) = .ok bytes →
      Overlooks i destination d' r → d'.locate? (destination.child r.fileName) = some l →
      d'.entryAt l = some (.file []) → Effect i destination d d' l

/-- What has been done at a location stays done if it is left alone. -/
theorem Effect.still (h : Effect i destination d d' l) (hkeeps : d'.Keeps d'')
    (hstill : d''.entryAt l = d'.entryAt l) : Effect i destination d d'' l := by
  cases h with
  | untouched hsame => exact .untouched (hstill.trans hsame)
  | made hp hleads hnone hnew =>
    exact .made hp (Disk.locate?_of_keeps hkeeps hleads) hnone (hstill.trans hnew)
  | copied hread hleads hfile =>
    exact .copied hread (Disk.locate?_of_keeps hkeeps hleads) (hstill.trans hfile)
  | lost hread hoverlooks hleads hempty =>
    exact .lost hread (hoverlooks.keeps hkeeps) (Disk.locate?_of_keeps hkeeps hleads)
      (hstill.trans hempty)

/-- The file of a rule in the bundle is as it was, or it has been overlooked and nothing is left of
it. -/
theorem Effect.bundled (hlink : RulesUnlinked d) (hkeeps : d.Keeps d')
    (hbundle : d.dirOf i.catalog.rulesDir = some bundle)
    (h : Effect i destination d d' (Text.bytes r.fileName :: bundle))
    (he : d.entryAt (Text.bytes r.fileName :: bundle) = some (.file bytes)) :
    d'.entryAt (Text.bytes r.fileName :: bundle) = some (.file bytes)
      ∨ d'.entryAt (Text.bytes r.fileName :: bundle) = some (.file [])
        ∧ Overlooks i destination d' r := by
  -- only the rule's own file can have been copied to its place
  have hown : ∀ s : Rule, d'.locate? (destination.child s.fileName)
      = some (Text.bytes r.fileName :: bundle) → s = r := by
    intro s hleads
    obtain ⟨-, dir, -, hl, -⟩ :=
      (Disk.locate?_child_eq_some s.isName_fileName (hlink.keeps hkeeps s)).mp hleads
    exact (Rule.fileName_injective (List.cons.inj hl).1).symm
  cases h with
  | untouched hsame => exact Or.inl (hsame.trans he)
  | made _ _ hnone _ => cases hnone.symm.trans he
  | @copied s _ hread hleads hfile =>
    cases hown s hleads
    have hsource := ((Disk.readBytes_child_iff r.isName_fileName (hlink r) hbundle).mp hread).2
    exact Or.inl (hfile.trans (hsource.symm.trans he))
  | @lost s _ _ hoverlooks hleads hempty =>
    cases hown s hleads
    exact Or.inr ⟨hempty, hoverlooks⟩

/-- Directories that are made on the way to the destination are such an effect. -/
theorem effect_of_growsAlong
    (h : Disk.GrowsAlong (destination :: destination.strictAncestors) d d') (l : Location) :
    Effect i destination d d' l := by
  rcases h.grows.entry l with hsame | ⟨hnone, hnew⟩
  · exact .untouched hsame
  · rcases h.path l with hsame | ⟨p, hp, hrefusal, hdir⟩
    · exact .untouched hsame
    · exact .made hp (Disk.locate?_of_dirOf hrefusal hdir) hnone hnew

/-- The bundle has the same files after directories have been added. -/
theorem readBytes_rulePath_of_grows (hlink : RulesUnlinked d) (hgrows : d.Grows d')
    (hbundle : d.dirOf i.catalog.rulesDir = some bundle) (r : Rule) :
    d'.readBytes (i.catalog.rulePath r) = .ok bytes
      ↔ d.readBytes (i.catalog.rulePath r) = .ok bytes := by
  apply Disk.readBytes_child_congr r.isName_fileName (hlink r) hgrows.keeps hbundle
  exact hgrows.entryAt_eq_some_iff Entry.noConfusion

/-- An effect after directories have been added. -/
theorem Effect.after_growsAlong (hlink : RulesUnlinked d)
    (hgrows : Disk.GrowsAlong (destination :: destination.strictAncestors) d d')
    (hbundle : d.dirOf i.catalog.rulesDir = some bundle) (hkeeps : d'.Keeps d'')
    (h : Effect i destination d' d'' l) : Effect i destination d d'' l := by
  have hbefore : ∀ r bytes, d'.readBytes (i.catalog.rulePath r) = .ok bytes →
      d.readBytes (i.catalog.rulePath r) = .ok bytes :=
    fun r _ => (readBytes_rulePath_of_grows hlink hgrows.grows hbundle r).mp
  cases h with
  | untouched hsame => exact (effect_of_growsAlong hgrows l).still hkeeps hsame
  | made hp hleads hnone hnew =>
    rcases hgrows.grows.entry l with hsame | ⟨hnone', -⟩
    · exact .made hp hleads (hsame ▸ hnone) hnew
    · exact .made hp hleads hnone' hnew
  | copied hread hleads hfile => exact .copied (hbefore _ _ hread) hleads hfile
  | lost hread hoverlooks hleads hempty =>
    exact .lost (hbefore _ _ hread) hoverlooks hleads hempty

/-- Effects before a further file is copied. -/
theorem Effect.copies {dir : Location} (hlink : RulesUnlinked d) (hkeeps : d.Keeps d')
    (hholds : i.catalog.holdsRule d' r = i.catalog.holdsRule d r)
    (hbundle : d.dirOf i.catalog.rulesDir = some bundle)
    (hcopies : Copies i destination r bundle dir bytes d' d'')
    (h : ∀ l, Effect i destination d d' l) (l : Location) : Effect i destination d d'' l := by
  have hlink' := hlink.keeps hkeeps
  -- this copy decides what is at its own target; anywhere else the earlier effect stands
  by_cases hl : l = Text.bytes r.fileName :: dir
  · have hthere : i.catalog.holdsRule d' r = true :=
      (holdsRule_iff hlink' hcopies.bundle_eq r).mpr ⟨hcopies.source_path, bytes, hcopies.source⟩
    obtain ⟨-, old, hold⟩ := (holdsRule_iff hlink hbundle r).mp (hholds ▸ hthere)
    have hread := (Disk.readBytes_child_iff r.isName_fileName (hlink r) hbundle).mpr
      ⟨hcopies.source_path, hold⟩
    have hleads := hcopies.locate?_target hlink'
    have htarget := hcopies.entryAt_target
    rw [hl]
    by_cases hdir : bundle = dir
    · rw [if_pos hdir] at htarget
      exact .lost hread (hcopies.overlooks hlink' hdir) hleads htarget
    · rw [if_neg hdir] at htarget
      rcases (h _).bundled hlink hkeeps hbundle hold with hsame | ⟨-, hoverlooks⟩
      · cases hsame.symm.trans hcopies.source
        exact .copied hread hleads htarget
      · exact absurd (hoverlooks.eq_of_dirOf hlink' hcopies.bundle_eq hcopies.dir_eq) hdir
  · exact (h l).still (hcopies.keeps hlink') (hcopies.entryAt_of_ne hl)

/-! ### All locations -/

/-- Copying the files of rules has no other effect, also if it fails half way. -/
theorem effect_place (hlink : RulesUnlinked d) (hbundle : d.dirOf i.catalog.rulesDir = some bundle)
    (l : Location) : Effect i destination d (i.place destination rules d).disk l := by
  refine (place_preserves (P := fun d' => d.Keeps d'
    ∧ (∀ r, i.catalog.holdsRule d' r = i.catalog.holdsRule d r)
    ∧ ∀ l, Effect i destination d d' l) hlink ?_
    ⟨Disk.Keeps.refl d, fun _ => rfl, fun _ => .untouched rfl⟩).2.2 l
  intro r _ source dir bytes d' d'' hlink' hcopies ⟨hkeeps, hholds, heffect⟩
  cases hcopies.bundle_eq.symm.trans (Disk.dirOf_of_keeps hkeeps hbundle)
  exact ⟨hkeeps.trans (hcopies.keeps hlink'),
    fun s => (hcopies.holdsRule hlink' s).trans (hholds s),
    Effect.copies hlink hkeeps (hholds r) hbundle hcopies heffect⟩

theorem copyRules_of_not_bundled (h : i.catalog.isBundled d = false) (dir : Path) :
    i.copyRules dir d = ⟨d, [], .error (.missingRules i.catalog.rulesDir)⟩ := by
  rw [copyRules, if_neg (by simp [h])]

/-- Copying the rules has no other effect anywhere, whether or not it succeeds. -/
theorem effect_copyRules (hlink : RulesUnlinked d) (dir : Path) (l : Location) :
    Effect i (i.destination dir) d (i.copyRules dir d).disk l := by
  cases hbundled : i.catalog.isBundled d with
  | false =>
    rw [copyRules_of_not_bundled hbundled]
    exact .untouched rfl
  | true =>
    obtain ⟨-, bundle, hbundle⟩ := Disk.isDirectory_iff.mp hbundled
    have hgrows := growsAlong_prepare (i.destination dir) d
    rcases copyRules_disk i dir d with h | h | h <;> rw [h]
    · exact .untouched rfl
    · exact effect_of_growsAlong hgrows l
    · have hlink' := hlink.keeps hgrows.grows.keeps
      have hbundle' := Disk.dirOf_of_keeps hgrows.grows.keeps hbundle
      exact (effect_place hlink' hbundle' l).after_growsAlong hlink hgrows hbundle
        (keeps_place hlink')

theorem holdsRule_prepare (hlink : RulesUnlinked d) (hbundled : i.catalog.isBundled d = true)
    (r : Rule) :
    i.catalog.holdsRule (prepare destination d).disk r = i.catalog.holdsRule d r := by
  obtain ⟨-, bundle, hbundle⟩ := Disk.isDirectory_iff.mp hbundled
  have hgrows := grows_prepare destination d
  exact Disk.isFile_congr fun bytes => readBytes_rulePath_of_grows hlink hgrows hbundle r

/-- The rules of the bundle are those whose files were there before. -/
theorem holdsRule_copyRules (hlink : RulesUnlinked d) (dir : Path) (r : Rule) :
    i.catalog.holdsRule (i.copyRules dir d).disk r = i.catalog.holdsRule d r := by
  cases hbundled : i.catalog.isBundled d with
  | false => rw [copyRules_of_not_bundled hbundled]
  | true =>
    have hprepare : i.catalog.holdsRule (prepare (i.destination dir) d).disk r
        = i.catalog.holdsRule d r := holdsRule_prepare hlink hbundled r
    rcases copyRules_disk i dir d with h | h | h <;> rw [h]
    · exact hprepare
    · exact (holdsRule_place (hlink.keeps (grows_prepare _ d).keeps) r).trans hprepare

/-! ### A copy that succeeds -/

/-- Where a rule is settled, the destination has the bytes of the bundle's file, and they are none if
that is overlooked to be the same file. -/
theorem Settled.hasFile (hlink : RulesUnlinked d) (h : Settled i destination d r) :
    ∃ bytes, d.HasFile (i.catalog.rulePath r) bytes
      ∧ d.HasFile (destination.child r.fileName) bytes
      ∧ (Overlooks i destination d r → bytes = []) := by
  have hname := r.isName_fileName
  obtain ⟨bundle, dir, bytes, hbundle, hdir, hsource, htarget, hpath, hzero, hsame⟩ := h
  refine ⟨bytes, (Disk.hasFile_child_iff hname (hlink r)).mpr
      ⟨Path.not_mem_of_refusal? hpath, bundle, hbundle, hsource⟩,
    (Disk.hasFile_child_iff hname (hlink r)).mpr ⟨hzero, dir, hdir, htarget⟩, fun hoverlooks => ?_⟩
  rcases hsame with hfound | ⟨-, hempty⟩
  · rw [hoverlooks.1] at hfound
    cases hfound
  · exact hempty (hoverlooks.eq_of_dirOf hlink hbundle hdir)

/-- The copied rules are those whose files are in the bundle, in catalog order. -/
theorem copied_eq_filter (hlink : RulesUnlinked d) {dir : Path}
    (h : (i.copyRules dir d).result = .ok copied) :
    copied = Rule.all.filter (i.catalog.holdsRule d) := by
  rw [(installed_of_copyRules hlink h).copied_eq]
  exact List.filter_congr fun r _ => holdsRule_copyRules hlink dir r

/-- The file of a copied rule has the bytes that it has in the bundle, or none if it is overlooked that
it lay in the destination already. -/
theorem hasFile_of_copied (hlink : RulesUnlinked d) {dir : Path}
    (h : (i.copyRules dir d).result = .ok copied) (hr : r ∈ copied) :
    ∃ bytes, d.readBytes (i.catalog.rulePath r) = .ok bytes
      ∧ (¬Overlooks i (i.destination dir) (i.copyRules dir d).disk r →
        (i.copyRules dir d).disk.HasFile ((i.destination dir).child r.fileName) bytes)
      ∧ (Overlooks i (i.destination dir) (i.copyRules dir d).disk r →
        (i.copyRules dir d).disk.HasFile ((i.destination dir).child r.fileName) []) := by
  have hname := r.isName_fileName
  have hkeeps := keeps_copyRules (i := i) hlink dir
  have hlink' := hlink.keeps hkeeps
  obtain ⟨-, bundle, hbundle⟩ := Disk.isDirectory_iff.mp (stages_of_copyRules h).1
  have hholds := (List.mem_filter.mp (copied_eq_filter hlink h ▸ hr)).2
  obtain ⟨hpath, bytes, he⟩ := (holdsRule_iff hlink hbundle r).mp hholds
  have hread := (Disk.readBytes_child_iff hname (hlink r) hbundle).mpr ⟨hpath, he⟩
  obtain ⟨left, hsource, htarget, hempty⟩ :=
    ((installed_of_copyRules hlink h).settled r hr).hasFile hlink'
  refine ⟨bytes, hread, fun hfound => ?_, fun hoverlooks => hempty hoverlooks ▸ htarget⟩
  -- what is left in the bundle is what was there, so the target has it too
  obtain ⟨-, bundle', hbundle', hleft⟩ := (Disk.hasFile_child_iff hname (hlink' r)).mp hsource
  cases hbundle'.symm.trans (Disk.dirOf_of_keeps hkeeps hbundle)
  rcases (effect_copyRules hlink dir _).bundled hlink hkeeps hbundle he with hsame | ⟨-, hlost⟩
  · cases hsame.symm.trans hleft
    exact htarget
  · exact absurd hlost hfound

/-- Where nothing lies too deep, every copied rule has its bytes in the destination. -/
theorem hasFile_of_copied_of_shallow (hlink : RulesUnlinked d) {dir : Path}
    (h : (i.copyRules dir d).result = .ok copied) (hr : r ∈ copied)
    (hshallow : (i.copyRules dir d).disk.Shallow) :
    ∃ bytes, d.readBytes (i.catalog.rulePath r) = .ok bytes
      ∧ (i.copyRules dir d).disk.HasFile ((i.destination dir).child r.fileName) bytes := by
  obtain ⟨bytes, hread, hfile, -⟩ := hasFile_of_copied hlink h hr
  exact ⟨bytes, hread, hfile (not_overlooks_of_shallow hshallow (i.destination dir) r)⟩

/-- **What a copy that succeeds has done.**  The copied rules are those whose files are in the bundle,
in catalog order; each of them has in the destination the bytes that its file has in the bundle,
unless it is overlooked that it lay there already, in which case it is empty; and nothing else changes
anywhere, but for directories made on the way to the destination. -/
theorem copyRules_faithful (hlink : RulesUnlinked d) {dir : Path}
    (h : (i.copyRules dir d).result = .ok copied) :
    copied = Rule.all.filter (i.catalog.holdsRule d)
    ∧ (∀ r ∈ copied, ∃ bytes, d.readBytes (i.catalog.rulePath r) = .ok bytes
      ∧ (¬Overlooks i (i.destination dir) (i.copyRules dir d).disk r →
        (i.copyRules dir d).disk.HasFile ((i.destination dir).child r.fileName) bytes)
      ∧ (Overlooks i (i.destination dir) (i.copyRules dir d).disk r →
        (i.copyRules dir d).disk.HasFile ((i.destination dir).child r.fileName) []))
    ∧ (i.copyRules dir d).disk.workingDir = d.workingDir
    ∧ ∀ l, (∀ r ∈ copied,
        (i.copyRules dir d).disk.locate? ((i.destination dir).child r.fileName) ≠ some l) →
      (i.copyRules dir d).disk.entryAt l = d.entryAt l
      ∨ d.entryAt l = none ∧ (i.copyRules dir d).disk.entryAt l = some .directory
        ∧ ∃ p ∈ i.destination dir :: (i.destination dir).strictAncestors,
          (i.copyRules dir d).disk.locate? p = some l := by
  have hcopied := copied_eq_filter hlink h
  refine ⟨hcopied, fun r hr => hasFile_of_copied hlink h hr,
    (keeps_copyRules (i := i) hlink dir).workingDir, fun l hl => ?_⟩
  have hother : ∀ r bytes, d.readBytes (i.catalog.rulePath r) = .ok bytes →
      (i.copyRules dir d).disk.locate? ((i.destination dir).child r.fileName) ≠ some l := by
    intro r bytes hread
    have hholds : i.catalog.holdsRule d r = true := Disk.isFile_iff.mpr ⟨bytes, hread⟩
    exact hl r (hcopied ▸ List.mem_filter.mpr ⟨Rule.mem_all r, hholds⟩)
  cases effect_copyRules hlink dir l with
  | untouched hsame => exact Or.inl hsame
  | made hp hleads hnone hnew => exact Or.inr ⟨hnone, hnew, _, hp, hleads⟩
  | copied hread hleads _ => exact absurd hleads (hother _ _ hread)
  | lost hread _ hleads _ => exact absurd hleads (hother _ _ hread)

/-- A package that holds two rules, and a link to the project. -/
def linkedProject : Disk where
  workingDir := []
  entries :=
    [([Text.bytes "pack"], .directory),
      ([Text.bytes "rules", Text.bytes "pack"], .directory),
      ([Text.bytes "no-prop-mutation.grit", Text.bytes "rules", Text.bytes "pack"],
        .file (Text.bytes "language js\n")),
      ([Text.bytes "no-props-array-sort.grit", Text.bytes "rules", Text.bytes "pack"],
        .file (Text.bytes "or\n")),
      ([Text.bytes "web"], .directory),
      ([Text.bytes "home"], .link (Path.ofText "web"))]

/-- The installation from that package into the project behind the link. -/
def linkedInstallation : Installation := ⟨Catalog.ofRoot (Path.ofText "pack"), Path.ofText "home"⟩

theorem unlinked_linkedProject {name : Segment} (h : name ≠ Text.bytes "home") :
    linkedProject.Unlinked name := by
  apply Disk.unlinked_of_entries
  intro l target hmem
  have hl : l = [Text.bytes "home"] := by
    simp only [linkedProject, List.mem_cons, Prod.mk.injEq, reduceCtorEq, and_false, false_or,
      List.not_mem_nil, or_false] at hmem
    exact hmem.1
  rw [hl]
  simpa using h.symm

theorem rulesUnlinked_linkedProject : RulesUnlinked linkedProject := by
  intro r
  apply unlinked_linkedProject
  cases r <;> decide

theorem copyRules_faithful_linkedProject :
    RulesUnlinked linkedProject
      ∧ (linkedInstallation.copyRules (Path.ofText "lib/js") linkedProject).result
        = .ok [.propMutation, .propsArraySort]
      ∧ [Rule.propMutation, .propsArraySort]
        = Rule.all.filter (linkedInstallation.catalog.holdsRule linkedProject)
      ∧ (∃ bytes, linkedProject.readBytes (Path.ofText "pack/rules/no-prop-mutation.grit") = .ok bytes
        ∧ (linkedInstallation.copyRules (Path.ofText "lib/js") linkedProject).disk.HasFile
          (Path.ofText "home/lib/js/no-prop-mutation.grit") bytes)
      ∧ (linkedInstallation.copyRules (Path.ofText "lib/js") linkedProject).disk.entryAt
          [Text.bytes "home"] = some (.link (Path.ofText "web")) := by
  have hresult : (linkedInstallation.copyRules (Path.ofText "lib/js") linkedProject).result
      = .ok [.propMutation, .propsArraySort] := toOption_eq_some.mp (by decide +kernel)
  obtain ⟨hcopied, hfiles, -, hframe⟩ := copyRules_faithful rulesUnlinked_linkedProject hresult
  have hlinked := hframe [Text.bytes "home"] (by decide +kernel)
  have hbefore : linkedProject.entryAt [Text.bytes "home"] = some (.link (Path.ofText "web")) := by
    decide
  obtain ⟨bytes, hread, hfile, -⟩ := hfiles .propMutation (by decide)
  refine ⟨rulesUnlinked_linkedProject, hresult, hcopied,
    ⟨bytes, hread, hfile (by decide +kernel)⟩, ?_⟩
  rcases hlinked with hsame | ⟨hnone, -⟩
  · exact hsame.trans hbefore
  · cases hbefore.symm.trans hnone

/-- A location whose absolute path is longer than paths may be. -/
def deep : Location := List.replicate 17 (List.replicate 250 97)

/-- A working directory that lies so deep, with a package and a project. -/
def deepProject : Disk where
  workingDir := deep
  entries :=
    (List.range deep.length).map (fun n => (deep.drop n, .directory)) ++
    [(Text.bytes "pack" :: deep, .directory),
      (Text.bytes "rules" :: Text.bytes "pack" :: deep, .directory),
      (Text.bytes "no-prop-mutation.grit" :: Text.bytes "rules" :: Text.bytes "pack" :: deep,
        .file (Text.bytes "language js\n")),
      (Text.bytes "web" :: deep, .directory)]

theorem unlinked_deepProject (name : Segment) : deepProject.Unlinked name := by
  apply Disk.unlinked_of_entries
  intro l target hmem
  simp [deepProject] at hmem

theorem rulesUnlinked_deepProject : RulesUnlinked deepProject :=
  fun r => unlinked_deepProject (Text.bytes r.fileName)

/-- The installation from that package into that project. -/
def deepInstallation : Installation := ⟨Catalog.ofRoot (Path.ofText "pack"), Path.ofText "web"⟩

/-- A copy of the bundle to itself succeeds and loses the file where the working directory lies too
deep for paths to be resolved. -/
theorem copyRules_loses_file_deepProject :
    RulesUnlinked deepProject
      ∧ (deepInstallation.copyRules (Path.ofText "../pack/rules") deepProject).result
        = .ok [.propMutation]
      ∧ deepProject.readBytes (Path.ofText "pack/rules/no-prop-mutation.grit")
        = .ok (Text.bytes "language js\n")
      ∧ (deepInstallation.copyRules (Path.ofText "../pack/rules") deepProject).disk.readBytes
        (Path.ofText "web/../pack/rules/no-prop-mutation.grit") = .ok [] :=
  ⟨rulesUnlinked_deepProject, toOption_eq_some.mp (by decide +kernel),
    toOption_eq_some.mp (by decide +kernel), toOption_eq_some.mp (by decide +kernel)⟩

/-! ### The bundle -/

/-- What an installation does after copying the rules leaves their files alone. -/
theorem keeps_install (hrules : RulesUnlinked d) (hconfigs : ConfigsUnlinked d) (i : Installation)
    (request : Request) :
    (i.copyRules request.dir d).disk.Keeps (i.install request d).disk
      ∧ ∀ r : Rule, (i.copyRules request.dir d).disk.Spares (i.install request d).disk
        (Text.bytes r.fileName) := by
  cases hcopy : (i.copyRules request.dir d).result with
  | error failure =>
    rw [(install_of_failure hcopy).1]
    exact ⟨Disk.Keeps.refl _, fun _ => Disk.Spares.refl _ _⟩
  | ok copied =>
    rw [(install_of_copied hcopy).1]
    exact keeps_registerIf (hconfigs.keeps (keeps_copyRules (i := i) hrules request.dir)) i request
      copied

/-- An installation that succeeds has copied the rules that it reports. -/
theorem copied_of_install {request : Request} {report : Report}
    (h : (i.install request d).result = .ok report) :
    (i.copyRules request.dir d).result = .ok report.copied := by
  cases hcopy : (i.copyRules request.dir d).result with
  | error failure =>
    rw [(install_of_failure hcopy).2] at h
    cases h
  | ok copied =>
    rw [(install_of_copied hcopy).2] at h
    obtain ⟨_, -, rfl⟩ := Run.map_result_eq_ok.mp h
    rfl

/-- A bundled file stays as it was, or it has been overlooked that it was to be copied to itself. -/
theorem hasFile_install (hrules : RulesUnlinked d) (hconfigs : ConfigsUnlinked d) (request : Request)
    (h : d.HasFile (i.catalog.rulePath r) bytes) :
    (i.install request d).disk.HasFile (i.catalog.rulePath r) bytes
      ∨ (i.install request d).disk.HasFile (i.catalog.rulePath r) []
        ∧ Overlooks i (i.destination request.dir) (i.install request d).disk r := by
  have hname := r.isName_fileName
  have hkeeps := keeps_copyRules (i := i) hrules request.dir
  obtain ⟨hkept, hspared⟩ := keeps_install hrules hconfigs i request
  obtain ⟨hzero, bundle, hbundle, he⟩ := (Disk.hasFile_child_iff hname (hrules r)).mp h
  have hbundle' := Disk.dirOf_of_keeps (hkeeps.trans hkept) hbundle
  have hstays := hspared r bundle
  have hfile : ∀ left, (i.copyRules request.dir d).disk.entryAt (Text.bytes r.fileName :: bundle)
      = some (.file left) → (i.install request d).disk.HasFile (i.catalog.rulePath r) left := by
    intro left hleft
    exact (Disk.hasFile_child_iff hname ((hrules.keeps hkeeps).keeps hkept r)).mpr
      ⟨hzero, bundle, hbundle', hstays.trans hleft⟩
  rcases (effect_copyRules hrules request.dir _).bundled hrules hkeeps hbundle he with
    hsame | ⟨hempty, hoverlooks⟩
  · exact Or.inl (hfile bytes hsame)
  · exact Or.inr ⟨hfile [] hempty, hoverlooks.keeps hkept⟩

/-- Where nothing lies too deep, no installation changes the bundle. -/
theorem hasFile_install_of_shallow (hrules : RulesUnlinked d) (hconfigs : ConfigsUnlinked d)
    (request : Request) (hshallow : (i.install request d).disk.Shallow)
    (h : d.HasFile (i.catalog.rulePath r) bytes) :
    (i.install request d).disk.HasFile (i.catalog.rulePath r) bytes := by
  rcases hasFile_install hrules hconfigs request h with hsame | ⟨-, hoverlooks⟩
  · exact hsame
  · exact absurd hoverlooks (not_overlooks_of_shallow hshallow (i.destination request.dir) r)

/-- **What becomes of the bundle.**  Whether or not an installation succeeds, and wherever its
destination lies, a file that a rule has in the bundle is there afterwards with the same bytes, unless
it was overlooked that the destination is the bundle.  Then nothing is left of the file once it has
been copied. -/
theorem install_keeps_bundle (hrules : RulesUnlinked d) (hconfigs : ConfigsUnlinked d)
    (request : Request) (r : Rule) (h : d.HasFile (i.catalog.rulePath r) bytes) :
    ((i.install request d).disk.HasFile (i.catalog.rulePath r) bytes
      ∨ (i.install request d).disk.HasFile (i.catalog.rulePath r) []
        ∧ Overlooks i (i.destination request.dir) (i.install request d).disk r)
    ∧ ∀ report, (i.install request d).result = .ok report → r ∈ report.copied →
      Overlooks i (i.destination request.dir) (i.install request d).disk r →
      (i.install request d).disk.HasFile (i.catalog.rulePath r) [] := by
  refine ⟨hasFile_install hrules hconfigs request h, fun report hreport hr hoverlooks => ?_⟩
  have hrules' := hrules.keeps (keeps_copyRules (i := i) hrules request.dir)
  obtain ⟨hkept, hspared⟩ := keeps_install hrules hconfigs i request
  have hinstalled := (installed_of_copyRules hrules (copied_of_install hreport)).mono hrules' hkept
    hspared
  obtain ⟨left, hsource, -, hempty⟩ := (hinstalled.settled r hr).hasFile (hrules'.keeps hkept)
  exact hempty hoverlooks ▸ hsource

theorem configsUnlinked_linkedProject : ConfigsUnlinked linkedProject := by
  intro name hname
  apply unlinked_linkedProject
  intro heq
  have hother : "home" ∉ Config.fileNames := by decide
  exact hother (Text.bytes_injective heq ▸ hname)

/-- Also where the destination is the bundle itself, by another name. -/
theorem install_keeps_bundle_linkedProject :
    (RulesUnlinked linkedProject ∧ ConfigsUnlinked linkedProject
      ∧ linkedProject.HasFile (Path.ofText "pack/rules/no-prop-mutation.grit")
        (Text.bytes "language js\n"))
    ∧ linkedProject.dirOf (Path.ofText "home/../pack/./rules/")
      = linkedProject.dirOf (Path.ofText "pack/rules")
    ∧ (linkedInstallation.install ⟨Path.ofText "../pack/./rules/", true⟩ linkedProject).disk.HasFile
      (Path.ofText "pack/rules/no-prop-mutation.grit") (Text.bytes "language js\n") := by
  have hfile : linkedProject.HasFile (Path.ofText "pack/rules/no-prop-mutation.grit")
      (Text.bytes "language js\n") := by
    refine ⟨[Text.bytes "no-prop-mutation.grit", Text.bytes "rules", Text.bytes "pack"], ?_, ?_⟩
    · decide +kernel
    · decide +kernel
  refine ⟨⟨rulesUnlinked_linkedProject, configsUnlinked_linkedProject, hfile⟩, by decide +kernel, ?_⟩
  obtain ⟨hkept | ⟨-, hoverlooks⟩, -⟩ := install_keeps_bundle (i := linkedInstallation)
    rulesUnlinked_linkedProject configsUnlinked_linkedProject ⟨Path.ofText "../pack/./rules/", true⟩
    .propMutation hfile
  · exact hkept
  · exact absurd hoverlooks (by decide +kernel)

/-- The bundle is emptied where the working directory lies too deep for paths to be resolved. -/
theorem install_empties_bundle_deepProject :
    (RulesUnlinked deepProject ∧ ConfigsUnlinked deepProject
      ∧ deepProject.HasFile (Path.ofText "pack/rules/no-prop-mutation.grit")
        (Text.bytes "language js\n"))
    ∧ (deepInstallation.install ⟨Path.ofText "../pack/rules", false⟩ deepProject).disk.HasFile
      (Path.ofText "pack/rules/no-prop-mutation.grit") [] := by
  refine ⟨⟨rulesUnlinked_deepProject, fun name _ => unlinked_deepProject (Text.bytes name), ?_⟩, ?_⟩
  · exact ⟨Text.bytes "no-prop-mutation.grit" :: Text.bytes "rules" :: Text.bytes "pack" :: deep,
      by decide +kernel, by decide +kernel⟩
  · exact ⟨Text.bytes "no-prop-mutation.grit" :: Text.bytes "rules" :: Text.bytes "pack" :: deep,
      by decide +kernel, by decide +kernel⟩

end Installation

end RulePack
