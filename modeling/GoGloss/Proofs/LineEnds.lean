import GoGloss.Proofs.Lossless

/-!
# Where semicolons are put

The rule for the semicolons that stand for line ends, told without a lexer: take
the lexemes that are written in the source, and behind each of them that can end
a statement look at the gap up to the next one. If the gap has a line break, a
semicolon of no width stands at the first; if it has none, one stands at the end
of the source, provided that nothing is written any more. There are no others.

`tokenize_lineEnds` says that lexing follows this rule, whatever comments, line
breaks and flaws the source is made of.
-/

namespace GoGloss

/-- The tokens that can end a statement, besides names and literals. -/
def statementEnders : List Token :=
  [.keyword .break_, .keyword .continue_, .keyword .fallthrough_, .keyword .return_,
   .mark .plusPlus, .mark .minusMinus, .mark .rparen, .mark .rbrack, .mark .rbrace]

/-- The source from `stop` up to the next written lexeme, or up to its end. -/
def gapBehind (src : String) (stop : Nat) (next : Option Lexeme) : List Char :=
  (slice? src.toList stop (next.elim src.utf8ByteSize Lexeme.start)).getD []

/-- The end of the line in the gap behind a lexeme. -/
def lineEndBehind (src : String) (stop : Nat) (next : Option Lexeme) : Option Lexeme :=
  match (gapBehind src stop next).findIdx? Piece.isLineBreak with
  | some i => some (.lineEnd (stop + byteSize ((gapBehind src stop next).take i)))
  | none => if next.isNone then some (.lineEnd src.utf8ByteSize) else none

/-- Written lexemes with the line ends that the rule puts between and behind them. -/
def withLineEnds (src : String) : List Lexeme → List Lexeme
  | [] => []
  | l :: ls =>
    l :: ((if l.token.hasOwnText || statementEnders.contains l.token then
        (lineEndBehind src l.stop ls.head?).toList else [])
      ++ withLineEnds src ls)

theorem endsStatement_eq (t : Token) :
    t.endsStatement = (t.hasOwnText || statementEnders.contains t) := by
  cases t with
  | keyword word => cases word <;> rfl
  | mark m => cases m <;> rfl
  | name | literal | illegal | eof => rfl

/-- In a gap that is known, the rule finds the line end that the layout has. -/
theorem lineEnds_eq {src : String} {pre gap : List Char} (rest : List Char) (armed : Bool)
    (next : Option Lexeme) (hsrc : src.toList = pre ++ (gap ++ rest))
    (hnext : next.elim src.utf8ByteSize Lexeme.start = byteSize pre + byteSize gap) :
    lineEnds armed (byteSize pre) gap next.isNone =
      if armed then (lineEndBehind src (byteSize pre) next).toList else [] := by
  have hgap : gapBehind src (byteSize pre) next = gap := by
    rw [gapBehind, hnext, hsrc, slice?_byteSize, Option.getD_some]
  rw [lineEnds, lineEndBehind, hgap, lineEnd?]
  cases gap.findIdx? Piece.isLineBreak with
  | some i => rfl
  | none =>
      cases next with
      | some l => rfl
      | none => rw [← show src.utf8ByteSize = byteSize pre + byteSize gap from hnext]; rfl

/--
A layout follows the rule: its first gap ends a line for the token before, and
every other gap for the written lexeme in front of it.
-/
theorem Layout.eq_withLineEnds {armed : Bool} {offset : Nat} {cs : List Char}
    {ls : List Lexeme} (h : Layout armed offset cs ls) {src : String} (pre : List Char)
    (hsrc : src.toList = pre ++ cs) (hoffset : offset = byteSize pre) :
    ls = (if armed then (lineEndBehind src offset (written ls).head?).toList else []) ++
      withLineEnds src (written ls) := by
  induction h generalizing pre with
  | @done armed offset gap hgap =>
      subst hoffset
      have hsize : src.utf8ByteSize = byteSize pre + byteSize gap := by
        rw [← byteSize_toList, hsrc, byteSize_append]
      rw [written_lineEnds, withLineEnds, List.append_nil]
      exact lineEnds_eq [] armed none (by rwa [List.append_nil]) hsize
  | @token armed offset gap text rest t ls hgap hwritten hrest ih =>
      subst hoffset
      have hih := ih (pre ++ (gap ++ text)) (by simp [hsrc]) (by simp [Nat.add_assoc])
      rw [written_append, written_lineEnds, written_token hwritten, List.nil_append,
        List.head?_cons, withLineEnds, ← endsStatement_eq, ← hih]
      rw [← lineEnds_eq _ armed (some _) hsrc rfl]
      rfl

/--
**Semicolons stand for line ends exactly where the rule puts them,** and one that
is written in the source has a width of one byte.
-/
theorem tokenize_lineEnds (src : String) :
    tokenize src = withLineEnds src (written (tokenize src)) ∧
      ∀ l ∈ written (tokenize src), l.token = .mark .semicolon → l.stop = l.start + 1 := by
  refine ⟨(layout_tokenize src).eq_withLineEnds [] rfl rfl, ?_⟩
  intro l hl hsemi
  obtain ⟨hl, hreal⟩ := List.mem_filter.mp hl
  obtain ⟨before, text, rest, -, -, hstop, hspec, -⟩ := (layout_tokenize src).liesIn l hl
  have htext := (hspec (by simpa using hreal)).symbol (by rw [hsemi]; rfl) (by simp [hsemi])
  rw [hsemi] at htext
  rw [hstop, ← htext]
  rfl

end GoGloss
