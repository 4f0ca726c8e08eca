import RulePack.Proofs.Comment.Stripped

/-!
# JSON texts hold no comments

A comment begins with a slash outside of string literals, and no token of a JSON text is one.

* `Json.marks`, `Json.Marked` — the marks of a JSON text;
* `Json.marked_of_read` — a text that is read has no others;
* `Comment.no_comment_of_tokens` — a text without a slash among its tokens holds no comment;
* `Config.ofValue` — the configuration that a value is;
* `Config.parse_of_read` — a text that is read as a value is its own stripped form, and the
  configuration that the value is.
-/

namespace RulePack

namespace Json

/-! ### Marks -/

/-- The characters that stand as marks in JSON texts. -/
def marks : List Char := [',', ':', '[', ']', '\x7b', '\x7d']

/-- Tokens whose marks are those of JSON texts. -/
def Marked (ts : List Token) : Prop := ∀ c, .mark c ∈ ts → c ∈ marks

variable {ts us : List Token} {Part : List Token → α → Prop} {closer : Char}

theorem marked_mark {c : Char} (hc : c ∈ marks) : Marked [.mark c] := by
  intro d hd
  cases List.mem_singleton.mp hd
  exact hc

theorem Marked.append (hts : Marked ts) (hus : Marked us) : Marked (ts ++ us) := by
  intro c hc
  rcases List.mem_append.mp hc with h | h
  · exact hts c h
  · exact hus c h

theorem Marked.cons {c : Char} (hc : c ∈ marks) (h : Marked ts) : Marked (.mark c :: ts) :=
  (marked_mark hc).append h

theorem following_marked (hpart : ∀ {ts a}, Part ts a → Marked ts) (hcloser : closer ∈ marks)
    {as : List α} (h : Following closer Part ts as) : Marked ts := by
  induction h with
  | closed => exact marked_mark hcloser
  | part hfirst hmore ih => exact ((hpart hfirst).append ih).cons (by decide)

theorem enclosed_marked (hpart : ∀ {ts a}, Part ts a → Marked ts) (hcloser : closer ∈ marks)
    {as : List α} (h : Enclosed closer Part ts as) : Marked ts := by
  cases h with
  | empty => exact marked_mark hcloser
  | parts hfirst hmore => exact (hpart hfirst).append (following_marked hpart hcloser hmore)

theorem pair_marked (hpart : ∀ {ts a}, Part ts a → Marked ts) {m : String × α}
    (h : Pair Part ts m) : Marked ts := by
  cases h with
  | @pair inside ts key a hkey hvalue =>
    have hliteral : Marked [.literal inside] := fun c hc => by cases List.mem_singleton.mp hc
    exact hliteral.append ((hpart hvalue).cons (by decide))

/-- A value has no other marks. -/
theorem spells_marked {depth : Nat} {v : Json} (h : Spells depth ts v) : Marked ts := by
  have single {t : Token} {v : Json} (h : t.Means v) : Marked [t] := by
    intro c hc
    cases List.mem_singleton.mp hc
    exact h.elim
  induction depth generalizing ts v with
  | zero =>
    cases h with
    | scalar hmeans => exact single hmeans
  | succ depth ih =>
    cases h with
    | scalar hmeans => exact single hmeans
    | array henclosed => exact (enclosed_marked ih (by decide) henclosed).cons (by decide)
    | object henclosed =>
      exact (enclosed_marked (pair_marked ih) (by decide) henclosed).cons (by decide)

theorem marked_of_read {text : String} {v : Json} (h : read text = .ok v) :
    Marked (tokens text.toList) :=
  spells_marked (read_eq_ok_iff.mp h)

/-- A character in front of a text that opens no literal takes no mark from it. -/
theorem mark_mem_tokens_cons {c d : Char} {cs : List Char} (hquote : c ≠ '"')
    (h : .mark d ∈ tokens cs) : .mark d ∈ tokens (c :: cs) := by
  cases hblank : isBlank c with
  | true => rwa [tokens_blank hblank]
  | false =>
    cases hword : isWordChar c with
    | false =>
      rw [tokens_mark hblank hquote hword]
      exact List.mem_cons_of_mem _ h
    | true =>
      by_cases hends : Ends cs
      · rw [tokens_cons_of_ends hword hends]
        exact List.mem_cons_of_mem _ h
      · obtain ⟨w, more, hw, hcons⟩ := tokens_cons_of_not_ends hword hends
        rw [hw, List.mem_cons] at h
        rw [hcons]
        exact List.mem_cons_of_mem _ (h.resolve_left fun heq => by cases heq)

end Json

namespace Comment

/-! ### Comments among the pieces -/

/-- A comment begins with a slash. -/
theorem slash_of_comment {cs : List Char} {p : Piece} {ps : List Piece}
    (hpieces : pieces cs = p :: ps) (h : p.isComment = true) : ∃ rest, cs = '/' :: rest := by
  cases cs with
  | nil =>
    rw [pieces_nil] at hpieces
    cases hpieces
  | cons c rest =>
    rw [pieces, List.cons.injEq] at hpieces
    rw [← hpieces.1, Piece.first] at h
    split at h
    · cases h
    split at h
    · rename_i hslash
      exact ⟨rest, by rw [hslash.1]⟩
    split at h
    · rename_i hslash
      exact ⟨rest, by rw [hslash.1]⟩
    · cases h

/-- Where no slash is a token there is no comment. -/
theorem no_comment_of_tokens {cs : List Char} (h : .mark '/' ∉ Json.tokens cs) :
    ∀ p ∈ pieces cs, p.isComment = false := by
  induction cs using pieces_induction with
  | nil => simp [pieces_nil]
  | @cut cs p behind hcut hpieces ih =>
    rw [hpieces, List.forall_mem_cons]
    cases hcomment : p.isComment with
    | true =>
      obtain ⟨rest, rfl⟩ := slash_of_comment hpieces hcomment
      rw [Json.tokens_mark rfl (by decide) rfl] at h
      exact absurd List.mem_cons_self h
    | false =>
      refine ⟨rfl, ih fun hmem => h ?_⟩
      cases hcut with
      | closed hclosed behind =>
        rw [Json.tokens_literal hclosed]
        exact List.mem_cons_of_mem _ hmem
      | unclosed _ =>
        rw [Json.tokens_nil] at hmem
        cases hmem
      | comment htrue => exact absurd htrue (by simp [hcomment])
      | plain hquote _ _ => exact Json.mark_mem_tokens_cons hquote hmem

end Comment

namespace Config

/-! ### Configurations without comments -/

/-- The configuration that a value is. -/
def ofValue (path : Path) : Json → Except Failure Config
  | .object members =>
    match pluginsOf members with
    | .ok _ => .ok ⟨path, members⟩
    | .error problem => .error (.badConfig path problem)
  | v => .error (.badConfig path ("expected a JSON object at the top level, found " ++ v.kind))

/-- A text is the configuration that the value of its stripped form is. -/
theorem parse_eq_ofValue (path : Path) {text : String} {v : Json}
    (h : Json.read (Comment.strip text) = .ok v) : parse path text = ofValue path v := by
  rw [parse, parseMembers, h]
  cases v with
  | object members =>
    dsimp only [ofValue]
    cases pluginsOf members with
    | ok plugins => rfl
    | error problem => rfl
  | _ => rfl

/-- **Stripping is invisible on JSON.**  A text that is read as a value is its own stripped form, so
the configuration is read from it as if there were no comments. -/
theorem parse_of_read {text : String} {v : Json} (h : Json.read text = .ok v) :
    Comment.strip text = text ∧ Json.read (Comment.strip text) = .ok v
      ∧ ∀ path, parse path text = ofValue path v := by
  have hslash : .mark '/' ∉ Json.tokens text.toList := fun hmem =>
    absurd (Json.marked_of_read h '/' hmem) (by decide)
  have hstrip : Comment.strip text = text := by
    rw [Comment.strip, Comment.stripFrom_of_no_comment (Comment.no_comment_of_tokens hslash),
      String.ofList_toList]
  have hread : Json.read (Comment.strip text) = .ok v := by rw [hstrip, h]
  exact ⟨hstrip, hread, fun path => parse_eq_ofValue path hread⟩

/-- Comment marks and escapes in a key and in a value. -/
theorem parse_of_read_escapes :
    let text := "\x7b\"/*\\\"\":\t\"http:\\/\\/a\\\\\"\x7d"
    let members : Json.Members := [("/*\"", .string "http://a\\")]
    Json.read text = .ok (.object members) ∧ Comment.strip text = text
      ∧ parse (Path.ofText "biome.json") text = .ok ⟨Path.ofText "biome.json", members⟩ := by
  intro text members
  have hread : Json.read text = .ok (.object members) := by
    have hlist : text.toList
        = ['\x7b', '"', '/', '*', '\\', '"', '"', ':', '\t', '"', 'h', 't', 't', 'p', ':', '\\', '/',
          '\\', '/', 'a', '\\', '\\', '"', '\x7d'] := by
      decide +kernel
    rw [Json.read, hlist]
    rfl
  obtain ⟨hstrip, -, hparse⟩ := parse_of_read hread
  exact ⟨hread, hstrip, hparse _⟩

end Config

end RulePack
