import GoGloss.Proofs.Spelling

/-!
# Tokens next to each other

Tokens need no blank between them where the second one starts with a character that the
first one does not go on with. For a mark that depends on the longer marks, for a name on
the characters of names; a number goes on with a point and with letters; and a literal
of text, which ends with its quote, does not see what follows it.

A token that is read back in front of a blank is read back in front of all these
(`Token.ReadApart.speltAs`).
-/

namespace GoGloss

open Character Piece

/-! ## What tokens end before -/

/-- The numbers among the literals. -/
def LiteralKind.isNumber : LiteralKind → Bool
  | .int | .float | .imaginary => true
  | .rune | .string | .rawString => false

/-- A token ends in front of a rest, which starts with something else. -/
def Token.EndsBefore (rest : List Char) : Token → Prop
  | .name _ => ∀ c ∈ rest.head?, isNamePart c = false
  | .literal kind _ => kind.isNumber = true → Closed rest
  | .keyword _ => ∀ c ∈ rest.head?, (isNamePart c || leadsLikeWord c) = false
  | .mark m => ∀ c ∈ rest.head?, m.endsBefore c = true
  | .illegal _ | .eof => False

/-- No mark goes on with a character that is in none of them behind the first. -/
theorem Mark.endsBefore_of_notMem {m : Mark} {d : Char}
    (hd : d ∉ ['.', '<', '>', '=', '^', '&', '|', '+', '-', '/', '*'])
    (hpoint : m = .dot → d.isDigit = false) : m.endsBefore d = true := by
  have hall : (Mark.all.all fun m => m.text.toList.tail.all
      (['.', '<', '>', '=', '^', '&', '|', '+', '-', '/', '*'].contains ·)) = true := by
    decide +kernel
  have htails : ∀ m ∈ Mark.all, ∀ c ∈ m.text.toList.tail,
      c ∈ ['.', '<', '>', '=', '^', '&', '|', '+', '-', '/', '*'] := by
    simpa [List.all_eq_true] using hall
  have hnot : (Mark.all.any fun longer =>
      (m.text.toList ++ [d]).isPrefixOf longer.text.toList) = false := by
    rw [List.any_eq_false]
    intro longer hlonger hpre
    obtain ⟨after, hafter⟩ := List.isPrefixOf_iff_prefix.mp hpre
    refine hd (htails longer hlonger d ?_)
    have hne : m.text.toList ≠ [] := by
      have hall : ∀ m ∈ Mark.all, m.text.toList ≠ [] := by decide +kernel
      exact hall m (by cases m <;> decide)
    rw [← hafter]
    cases htext : m.text.toList with
    | nil => exact absurd htext hne
    | cons c cs => simp
  have hslash : (d == '/' || d == '*') = false := by
    simp only [List.mem_cons, not_or] at hd
    simp [hd.2.2.2.2.2.2.2.2.2.1, hd.2.2.2.2.2.2.2.2.2.2.1]
  rw [Mark.endsBefore, hnot, hslash]
  by_cases hm : m = .dot
  · simp [hpoint hm]
  · simp [hm]

/-- Brackets and commas are part of no longer mark. -/
theorem Mark.endsBefore_bracket {m : Mark} (hm : m ∈ [.lparen, .rparen, .lbrack, .rbrack, .comma])
    (d : Char) : m.endsBefore d = true := by
  have halone : ∀ m ∈ [Mark.lparen, .rparen, .lbrack, .rbrack, .comma], ∀ longer ∈ Mark.all,
      m.text.toList <+: longer.text.toList → longer = m := by decide +kernel
  have hother : ∀ m ∈ [Mark.lparen, .rparen, .lbrack, .rbrack, .comma],
      m ≠ .dot ∧ m ≠ .slash := by decide +kernel
  obtain ⟨hdot, hslash⟩ := hother m hm
  have hnot : (Mark.all.any fun longer =>
      (m.text.toList ++ [d]).isPrefixOf longer.text.toList) = false := by
    rw [List.any_eq_false]
    intro longer hlonger hpre
    have hprefix := List.isPrefixOf_iff_prefix.mp hpre
    have hsame := halone m hm longer hlonger ((List.prefix_append _ _).trans hprefix)
    have hlength := hprefix.length_le
    rw [hsame, List.length_append, List.length_singleton] at hlength
    omega
  simp [Mark.endsBefore, hnot, hdot, hslash]

theorem Mark.endsBefore_colon {d : Char} (hd : d ≠ '=') : Mark.colon.endsBefore d = true := by
  have hcolon : ∀ longer ∈ Mark.all, longer.text.toList.head? = some ':' →
      longer = .colon ∨ longer = .define := by decide +kernel
  have hnot : (Mark.all.any fun longer =>
      (Mark.colon.text.toList ++ [d]).isPrefixOf longer.text.toList) = false := by
    rw [List.any_eq_false]
    intro longer hlonger hpre
    obtain ⟨after, hafter⟩ := List.isPrefixOf_iff_prefix.mp hpre
    rcases hcolon longer hlonger (by rw [← hafter]; rfl) with rfl | rfl
    · exact absurd (congrArg List.length hafter) (by simp [Mark.text])
    · have hsecond := congrArg (fun cs => cs.tail.head?) hafter
      exact hd (by simpa [Mark.text] using hsecond)
  simp [Mark.endsBefore, hnot]

/-! ## Tokens that are read back -/

namespace Piece

/-- The tokens that a piece with the given start may be. -/
def Lead.Makes : Lead → Token → Prop
  | _, .illegal _ => True
  | word, .name _ | word, .keyword _ | mark, .mark _ => True
  | number, .literal kind _ => kind.isNumber = true
  | rawString, .literal .. | string, .literal .. | rune, .literal .. => True
  | _, _ => False

theorem quoted_kind {judge : Char → List Char → String → Token} (hjudge : Quoted.Judges judge)
    (quote : Char) (cs : List Char) :
    (∃ kind text, (quoted judge quote cs).kind = .token (.literal kind text)) ∨
      ∃ flaw, (quoted judge quote cs).kind = .token (.illegal flaw) := by
  rw [quoted]
  dsimp only
  split
  · rcases hjudge quote (Quoted.items quote cs).1
      (String.ofList (quote :: ((Quoted.items quote cs).1 ++ [quote]))) with
      ⟨kind, hkind⟩ | ⟨flaw, hflaw⟩
    · exact .inl ⟨kind, _, congrArg PieceKind.token hkind⟩
    · exact .inr ⟨flaw, congrArg PieceKind.token hflaw⟩
  · exact .inr ⟨_, rfl⟩

theorem Lead.makes_of_kind {start : Lead} {c : Char} {cs : List Char} {t : Token}
    (h : (start.piece c cs).kind = .token t) : start.Makes t := by
  cases start with
  | blank | lineBreak | byteOrderMark | lineComment => cases h
  | word =>
      rw [Lead.piece, word_eq, wordToken] at h
      split at h
      · split at h <;> cases h <;> trivial
      · cases h; trivial
  | number =>
      rcases hscan : Number.scan (c :: cs) with ⟨lit, rest⟩
      rw [Lead.piece, number_eq hscan, numberPiece] at h
      split at h
      · split at h <;> cases h <;> trivial
      · split at h <;> cases h <;> trivial
  | rawString =>
      rw [Lead.piece, Piece.rawString] at h
      dsimp only at h
      split at h <;> cases h <;> trivial
  | string =>
      rcases quoted_kind Quoted.stringToken_judges c cs with ⟨kind, text, hkind⟩ | ⟨flaw, hkind⟩
      · cases h.symm.trans hkind; trivial
      · cases h.symm.trans hkind; trivial
  | rune =>
      rw [Lead.piece, Piece.rune] at h
      split at h
      · cases h; trivial
      · rcases quoted_kind Quoted.runeToken_judges '\x27' cs with ⟨kind, text, hkind⟩ | ⟨flaw, hkind⟩
        · cases h.symm.trans hkind; trivial
        · cases h.symm.trans hkind; trivial
  | blockComment =>
      rw [Lead.piece, Piece.blockComment] at h
      split at h <;> cases h
      trivial
  | mark =>
      rw [Lead.piece, Piece.mark] at h
      split at h <;> cases h <;> trivial

/-- What a literal starts with. -/
def startsLiteral (c : Char) : Bool :=
  c.isDigit || c == '.' || c == '\x60' || c == '\x22' || c == '\x27'

/-- A literal stays what it is if something follows that its digits do not go on with. -/
theorem first_of_literal {c : Char} {cs rest : List Char} {kind : LiteralKind} {text : String}
    (h : first c cs = ofToken (.literal kind text) (c :: cs))
    (hrest : kind.isNumber = true → Closed rest) :
    startsLiteral c = true ∧ first c (cs ++ rest) = first c cs := by
  have hkind : (first c cs).kind = .token (.literal kind text) := by rw [h]; rfl
  have htext : (first c cs).text = c :: cs := by rw [h]; rfl
  have hlegal : ∀ flaw, (first c cs).kind ≠ .token (.illegal flaw) := by
    intro flaw hflaw
    cases hkind.symm.trans hflaw
  have hpromise := lead_promises c cs.head?
  rw [first_eq] at hkind htext hlegal
  have hmakes := Lead.makes_of_kind hkind
  have hstart : startsLiteral c = true ∧ (cs = [] → c ≠ '.') := by
    generalize lead c cs.head? = start at hpromise hmakes
    cases start with
    | number =>
        rcases hpromise with hdigit | ⟨rfl, hnext⟩
        · exact ⟨by simp [startsLiteral, hdigit], by rintro - rfl; simp at hdigit⟩
        · exact ⟨rfl, by rintro rfl; simp at hnext⟩
    | rawString | string | rune =>
        obtain rfl := hpromise
        exact ⟨rfl, fun _ => by decide⟩
    | blank | lineBreak | byteOrderMark | word | lineComment | blockComment | mark =>
        exact hmakes.elim
  -- the second character matters after a point and a slash, which are no literals alone
  have hlead : lead c (cs ++ rest).head? = lead c cs.head? := by
    cases cs with
    | cons d cs => rfl
    | nil =>
        refine lead_eq_none (fun hc => hstart.2 rfl hc.1) ?_
        rintro rfl
        cases hstart.1
  refine ⟨hstart.1, ?_⟩
  rw [first_eq, first_eq, hlead]
  generalize lead c cs.head? = start at hpromise hmakes htext hlegal
  suffices hlocal : start.piece c (cs ++ rest) = start.piece c (cs ++ []) by
    rwa [List.append_nil] at hlocal
  replace htext : (start.piece c (cs ++ [])).text = c :: cs := by rwa [List.append_nil]
  replace hlegal : ∀ flaw, (start.piece c (cs ++ [])).kind ≠ .token (.illegal flaw) := by
    rwa [List.append_nil]
  cases start with
  | number =>
      have hne : (Number.scan ((c :: cs) ++ [])).1 ≠ [] := by
        rw [List.append_nil]
        exact Number.scan_ne_nil hpromise
      exact number_local hne htext (.inr (hrest hmakes)) (by simp [Number.PointsTogether])
  | rawString =>
      obtain rfl := hpromise
      exact rawString_local htext hlegal
  | string =>
      obtain rfl := hpromise
      exact quoted_local (by decide) htext hlegal
  | rune =>
      obtain rfl := hpromise
      exact rune_local htext hlegal
  | blank | lineBreak | byteOrderMark | word | lineComment | blockComment | mark =>
      exact hmakes.elim

end Piece

/-- A token that is read back is the first piece of its text. -/
theorem Token.ReadApart.first_eq {t : Token} (h : t.ReadApart) :
    ∃ c cs, t.text.toList = c :: cs ∧ first c cs = ofToken t (c :: cs) := by
  have hcut := h.cut [] apart_nil
  rw [List.append_nil] at hcut
  obtain ⟨c, text, rest, htext, hsrc, hfirst, hrest⟩ := cut_eq_cons hcut
  have hwhole : t.text.toList = c :: text := htext
  obtain rfl : rest = [] := by
    rw [hwhole] at hsrc
    simpa using hsrc
  rw [List.append_nil] at hfirst
  exact ⟨c, text, hwhole, hfirst.trans (by rw [hwhole])⟩

theorem isIdentifier_of_readApart {text : String} (h : (Token.name text).ReadApart) :
    isIdentifier text = true := by
  obtain ⟨c, cs, htext, hfirst⟩ := h.first_eq
  change text.toList = c :: cs at htext
  have hkind : (first c cs).kind = .token (.name text) := by rw [hfirst]; rfl
  have hwhole : (first c cs).text = c :: cs := by rw [hfirst]; rfl
  have hpromise := lead_promises c cs.head?
  rw [first_eq] at hkind hwhole
  have hmakes := Lead.makes_of_kind hkind
  generalize lead c cs.head? = start at hpromise hmakes hkind hwhole
  cases start with
  | word =>
      rw [Lead.piece, word_eq] at hkind hwhole
      change (c :: cs).takeWhile isNamePart = c :: cs at hwhole
      have hparts : (c :: cs).all isNamePart = true := by
        rw [← hwhole]
        exact List.all_takeWhile
      have hrest : (c :: cs).dropWhile isNamePart = [] := by
        have hend : (c :: cs ++ []).takeWhile isNamePart = c :: cs := by rwa [List.append_nil]
        simpa using dropWhile_of_takeWhile hend
      rw [hwhole, hrest, wordToken, ← htext, String.ofList_toList] at hkind
      rw [isIdentifier, htext, hparts]
      cases hword : Keyword.ofText? text with
      | some k => rw [hword] at hkind; cases hkind
      | none => simpa [Lead.Promises] using hpromise
  | blank | lineBreak | byteOrderMark | number | rawString | string | rune | lineComment
  | blockComment | mark => exact hmakes.elim

/-- A literal is read back in front of what it ends before. -/
theorem cut_literal {kind : LiteralKind} {text : String} {rest : List Char}
    (h : (Token.literal kind text).ReadApart) (hrest : kind.isNumber = true → Closed rest) :
    cut 0 (text.toList ++ rest) = ofToken (.literal kind text) text.toList :: cut 0 rest := by
  obtain ⟨c, cs, htext, hfirst⟩ := h.first_eq
  change text.toList = c :: cs at htext
  have hsame := (first_of_literal hfirst hrest).2.trans hfirst
  rw [htext, List.cons_append, ← hsame]
  exact cut_cons (by rw [hsame]; rfl) (by simp [hsame, ofToken])

/-- **A token that is read back in front of a blank is read back in front of all that it
ends before.** -/
theorem Token.ReadApart.speltAs {t : Token} {rest : List Char} (h : t.ReadApart)
    (hrest : t.EndsBefore rest) : SpeltAs t.text.toList [t] rest := by
  refine speltAs_token h.legal ?_
  cases t with
  | name text => exact cut_identifier (isIdentifier_of_readApart h) hrest
  | literal kind text => exact cut_literal h hrest
  | keyword k => exact cut_keyword k hrest
  | mark m => exact cut_mark m hrest
  | illegal | eof => exact hrest.elim

end GoGloss
