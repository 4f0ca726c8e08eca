import RulePack.Package
import RulePack.Proofs.Disk.Alike
import RulePack.Proofs.Installation.Copying

/-!
# Packages at a given root

A root that is given is made absolute.  The catalog at the absolute root answers as the catalog at
the root as it was given, as long as neither looks at a path that is too long.

* `Path.Fits` — paths that are not too long;
* `Catalog.Agree` — two catalogs give the same answers;
* `Catalog.agree_of_leadsAlike` — catalogs at roots that lead alike agree;
* `Catalog.Bounded`, `Catalog.bounded` — what is looked for at a path that is too long is not there;
* `Package.discover_given` — making a given root absolute changes no answer;
* `Package.not_isBundled_discover` — a root that is too long as it was given, but not when it is
  absolute.
-/

namespace RulePack

/-- The path is not longer than paths may be. -/
def Path.Fits (p : Path) : Prop := p.bytes.length ≤ lengthLimit

instance (p : Path) : Decidable p.Fits := inferInstanceAs (Decidable (_ ≤ _))

/-- The failure, reported at another path. -/
def Failure.reportedAt (p : Path) : Failure → Failure
  | disk _ fault => disk p fault
  | failure => failure

namespace Disk

variable {d : Disk} {p q : Path} {l : Location}

theorem isDirectory_of_find (h : d.find p = d.find q) : d.isDirectory p = d.isDirectory q := by
  rw [isDirectory, isDirectory, entry?, entry?, h]

theorem isFile_of_find (h : d.find p = d.find q) : d.isFile p = d.isFile q := by
  rw [isFile, isFile, entry?, entry?, h]

theorem readText_of_find (h : d.find p = d.find q) : d.readText p = d.readText q := by
  rw [readText, readText, readBytes, readBytes, h]

theorem fits_of_isDirectory (h : d.isDirectory p = true) : p.Fits :=
  (Path.refusal?_eq_none.mp (isDirectory_iff.mp h).1).2

theorem fits_of_isFile (h : d.isFile p = true) : p.Fits := by
  obtain ⟨bytes, hread⟩ := isFile_iff.mp h
  obtain ⟨l, hfind, -⟩ := readBytes_eq_ok.mp hread
  exact (Path.refusal?_eq_none.mp (find_eq_ok.mp hfind).1).2

end Disk

namespace Catalog

variable {d : Disk} {c c' : Catalog} {p q : Path} {r : Rule} {name : String}

/-- Two catalogs give the same answers where none of the paths that they look at is too long.  A
failure to read a file may be reported at either path. -/
structure Agree (d : Disk) (c c' : Catalog) : Prop where
  bundled : c.rulesDir.Fits → c'.rulesDir.Fits → c.isBundled d = c'.isBundled d
  holds : ∀ r, (c.rulePath r).Fits → (c'.rulePath r).Fits → c.holdsRule d r = c'.holdsRule d r
  reads : ∀ name, (∀ r, Rule.ofText? name = some r → (c.rulePath r).Fits ∧ (c'.rulePath r).Fits) →
    ∀ p, (c.readRule d name).mapError (Failure.reportedAt p)
      = (c'.readRule d name).mapError (Failure.reportedAt p)

/-- What is looked for at a path that is too long is not there. -/
structure Bounded (d : Disk) (c : Catalog) : Prop where
  bundled : ¬c.rulesDir.Fits → c.isBundled d = false
  holds : ∀ r, ¬(c.rulePath r).Fits → c.holdsRule d r = false
  reads : ∀ name r, Rule.ofText? name = some r → ¬(c.rulePath r).Fits →
    c.readRule d name = .error (.unknownRule name)

theorem readRule_of_ofText? (h : Rule.ofText? name = some r) : c.readRule d name
    = if c.holdsRule d r then (d.readText (c.rulePath r)).mapError (.disk (c.rulePath r))
      else .error (.unknownRule name) := by
  rw [readRule, pathOf, h]
  rfl

theorem bounded (d : Disk) (c : Catalog) : Bounded d c := by
  have hholds : ∀ r, ¬(c.rulePath r).Fits → c.holdsRule d r = false := by
    intro r hlong
    rw [Bool.eq_false_iff]
    exact fun h => hlong (Disk.fits_of_isFile h)
  refine ⟨fun hlong => ?_, hholds, fun name r hname hlong => ?_⟩
  · rw [Bool.eq_false_iff]
    exact fun h => hlong (Disk.fits_of_isDirectory h)
  · rw [readRule_of_ofText? hname, hholds r hlong]
    rfl

/-- Catalogs at roots that lead alike give the same answers. -/
theorem agree_of_leadsAlike (h : d.LeadsAlike p q) : Agree d (ofRoot p) (ofRoot q) := by
  have hdir : Path.IsName (Text.bytes dirName) := by decide
  have hrule : ∀ r, ((ofRoot p).rulePath r).Fits → ((ofRoot q).rulePath r).Fits →
      d.find ((ofRoot p).rulePath r) = d.find ((ofRoot q).rulePath r) := fun r =>
    Disk.find_child_of_leadsAlike r.isName_fileName (h.child hdir)
  have hholds : ∀ r, ((ofRoot p).rulePath r).Fits → ((ofRoot q).rulePath r).Fits →
      (ofRoot p).holdsRule d r = (ofRoot q).holdsRule d r := fun r hp hq =>
    Disk.isFile_of_find (hrule r hp hq)
  refine ⟨fun hp hq => ?_, hholds, fun name hfits shown => ?_⟩
  · exact Disk.isDirectory_of_find (Disk.find_child_of_leadsAlike hdir h hp hq)
  · cases hname : Rule.ofText? name with
    | none => rw [readRule, readRule, pathOf, pathOf, hname]
    | some r =>
      obtain ⟨hp, hq⟩ := hfits r hname
      rw [readRule_of_ofText? hname, readRule_of_ofText? hname, hholds r hp hq,
        Disk.readText_of_find (hrule r hp hq)]
      split
      · cases d.readText ((ofRoot q).rulePath r) <;> rfl
      · rfl

end Catalog

namespace Package

variable {d : Disk} {root : Path}

theorem root_discover_some (root : Path) (sources : Sources) (d : Disk) :
    (discover (some root) sources d).1.root = givenRoot d root := rfl

/-- A given root that is not empty can be made absolute where the working directory is there. -/
theorem absolute?_givenRoot (hthere : d.isReached d.workingDir = true) (h : root.isEmpty = false) :
    Path.absolute? d.workingPath root = some (givenRoot d root) := by
  rw [givenRoot, hthere, Bool.or_true, if_pos rfl, Path.absolute?_eq h, Option.getD_some]

/-- A root that is what absolute paths are made to be is left as it is. -/
theorem givenRoot_of_normal (h : root.Normal) : givenRoot d root = root := by
  rw [givenRoot, Path.absolute?_of_normal h]
  split <;> rfl

/-- Where the working directory is there, a given root is made absolute once and for all, and the
catalog there gives the answers of the catalog at the root as it was given, but for paths that are too
long, at which nothing is there. -/
theorem discover_given (hstands : d.Stands) (hroot : root.isEmpty = false) (sources : Sources) :
    ∃ found, (discover (some root) sources d).1 = ⟨found⟩ ∧ found.isAbsolute = true
      ∧ (discover (some found) sources d).1 = ⟨found⟩
      ∧ Catalog.Agree d (Catalog.ofRoot root) (Catalog.ofRoot found)
      ∧ ∀ c : Catalog, c.Bounded d := by
  have hfound := absolute?_givenRoot hstands.isReached hroot
  have hbase := Location.straight_path hstands.isSpoken
  have hcomponents := Path.components_of_absolute? hbase.isAbsolute hroot hfound
  have hagain : givenRoot d (givenRoot d root) = givenRoot d root :=
    givenRoot_of_normal (Path.normal_of_absolute? hbase hroot hfound)
  exact ⟨givenRoot d root, rfl, (Path.components_eq_iff.mp hcomponents).1,
    congrArg Package.mk hagain,
    Catalog.agree_of_leadsAlike (Disk.leadsAlike_absolute? hstands hroot hfound),
    Catalog.bounded d⟩

/-- A package behind a link, seen from a directory beside it. -/
def linkedPackage : Disk :=
  ⟨[Text.bytes "work", Text.bytes "home"], [([Text.bytes "home"], .directory),
    ([Text.bytes "work", Text.bytes "home"], .directory),
    ([Text.bytes "link", Text.bytes "home"], .link (Path.ofText "./opt//pkg/")),
    ([Text.bytes "opt", Text.bytes "home"], .directory),
    ([Text.bytes "pkg", Text.bytes "opt", Text.bytes "home"], .directory),
    ([Text.bytes "rules", Text.bytes "pkg", Text.bytes "opt", Text.bytes "home"], .directory),
    ([Text.bytes "no-prop-mutation.grit", Text.bytes "rules", Text.bytes "pkg", Text.bytes "opt",
      Text.bytes "home"], .file (Text.bytes "language js"))]⟩

theorem stands_linkedPackage : linkedPackage.Stands := by decide +kernel

/-- The package is found behind the link, by either root. -/
theorem discover_given_linkedPackage :
    linkedPackage.Stands ∧ (Path.ofText ".//../link/./").isEmpty = false
      ∧ (discover (some (Path.ofText ".//../link/./")) ⟨none, Path.ofText "/"⟩ linkedPackage).1
        = ⟨Path.ofText "/home/work/../link/"⟩
      ∧ (Catalog.ofRoot (Path.ofText ".//../link/./")).isBundled linkedPackage = true
      ∧ (Catalog.ofRoot (Path.ofText "/home/work/../link/")).isBundled linkedPackage = true := by
  have hroot : (Path.ofText ".//../link/./").isEmpty = false := by decide +kernel
  have hdiscover : (discover (some (Path.ofText ".//../link/./")) ⟨none, Path.ofText "/"⟩
      linkedPackage).1 = ⟨Path.ofText "/home/work/../link/"⟩ := by decide +kernel
  have hnear : (Catalog.ofRoot (Path.ofText ".//../link/./")).isBundled linkedPackage = true := by
    decide +kernel
  obtain ⟨found, hfound, -, -, hagree, -⟩ :=
    discover_given stands_linkedPackage hroot ⟨none, Path.ofText "/"⟩
  cases hfound.symm.trans hdiscover
  have hfar := hagree.bundled (by decide +kernel) (by decide +kernel)
  exact ⟨stands_linkedPackage, hroot, hdiscover, hnear, hfar.symm.trans hnear⟩

/-! ### Roots that are too long as they are given -/

/-- The path behind a number of single dots. -/
def dotted (p : Path) : Nat → Path
  | 0 => p
  | count + 1 => ⟨Path.here ++ Path.slash :: (dotted p count).bytes⟩

theorem bytes_dotted (p : Path) (count : Nat) :
    ∃ front, (dotted p count).bytes = front ++ p.bytes ∧ front.length = 2 * count := by
  induction count with
  | zero => exact ⟨[], rfl, rfl⟩
  | succ count ih =>
    obtain ⟨front, hbytes, hlength⟩ := ih
    refine ⟨Path.dot :: Path.slash :: front, ?_, ?_⟩
    · rw [dotted, hbytes]
      rfl
    · rw [List.length_cons, List.length_cons, hlength]
      omega

theorem spokenSegments_dotted (p : Path) (count : Nat) :
    (dotted p count).spokenSegments = p.spokenSegments := by
  induction count with
  | zero => rfl
  | succ count ih =>
    rw [dotted, Path.spokenSegments_append_slash]
    exact ih

/-- Single dots in front of a name make no difference to the absolute path. -/
theorem givenRoot_dotted {s : Segment} (hs : Path.IsName s)
    (hthere : d.isReached d.workingDir = true) (count : Nat) :
    givenRoot d (dotted ⟨s⟩ (count + 1)) = d.workingPath.join ⟨s⟩ := by
  obtain ⟨front, hbytes, -⟩ := bytes_dotted ⟨s⟩ (count + 1)
  have hempty : (dotted ⟨s⟩ (count + 1)).isEmpty = false := rfl
  have hrelative : (dotted ⟨s⟩ (count + 1)).isAbsolute = false := rfl
  have hends : (dotted ⟨s⟩ (count + 1)).endsInSlash = false := by
    rw [Path.endsInSlash, hbytes]
    exact Path.endsInSlash_append hs
  have hanchor : Path.anchor d.workingPath (dotted ⟨s⟩ (count + 1)) = d.workingPath := by
    rw [Path.anchor, hrelative, if_neg Bool.false_ne_true]
  rw [givenRoot, hthere, Bool.or_true, if_pos rfl, Path.absolute?_eq hempty, hends,
    if_neg Bool.false_ne_true, hanchor, spokenSegments_dotted, Path.spokenSegments_name hs]
  rfl

/-- A package in the working directory. -/
def plainPackage : Disk :=
  ⟨[], [([Text.bytes "pkg"], .directory), ([Text.bytes "rules", Text.bytes "pkg"], .directory)]⟩

/-- A root behind so many single dots that it is too long has no rules, but it has when it has been
made absolute. -/
theorem not_isBundled_discover : ¬∀ (d : Disk) (root : Path) (sources : Sources), d.Stands →
    root.isEmpty = false → (Catalog.ofRoot root).isBundled d
      = (Catalog.ofRoot (discover (some root) sources d).1.root).isBundled d := by
  intro h
  have hname : Path.IsName (Text.bytes "pkg") := by decide
  have hagree := h plainPackage (dotted ⟨Text.bytes "pkg"⟩ 2050) ⟨none, Path.ofText "/"⟩
    (by decide +kernel) rfl
  have hlong : ¬(Catalog.ofRoot (dotted ⟨Text.bytes "pkg"⟩ 2050)).rulesDir.Fits := by
    obtain ⟨front, hbytes, hlength⟩ := bytes_dotted ⟨Text.bytes "pkg"⟩ 2050
    have hdir : Path.IsName (Text.bytes Catalog.dirName) := by decide
    rw [Path.Fits, Catalog.ofRoot, Path.bytes_child hdir, hbytes]
    split
    · rw [List.length_append, List.length_append, hlength, Path.lengthLimit]
      omega
    · rw [List.length_append, List.length_append, hlength, Path.lengthLimit]
      omega
  have hfar : (Catalog.ofRoot (plainPackage.workingPath.join ⟨Text.bytes "pkg"⟩)).isBundled
      plainPackage = true := by decide +kernel
  have hroot : (discover (some (dotted ⟨Text.bytes "pkg"⟩ 2050)) ⟨none, Path.ofText "/"⟩
      plainPackage).1.root = plainPackage.workingPath.join ⟨Text.bytes "pkg"⟩ := by
    rw [root_discover_some]
    exact givenRoot_dotted hname (d := plainPackage) rfl 2049
  rw [(Catalog.bounded plainPackage _).bundled hlong, hroot, hfar] at hagree
  cases hagree

end Package

end RulePack
