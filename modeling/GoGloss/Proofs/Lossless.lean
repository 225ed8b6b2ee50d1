import GoGloss.Proofs.Layout

/-!
# Nothing of a source is lost

The lexemes of a source lie in it one after the other, each with the text it was
made from, and what they leave uncovered is blanks, line breaks and comments. So
the source can be put together again from its lexemes and the gaps between them.

Words are where this needs care. A word is told apart at the byte behind it, so a
keyword in front of a character that merely starts like a letter comes out as a
name; `tokenize_lossless` says exactly when that happens.
-/

namespace GoGloss

open Character

/-- The lexemes that are written in the source, without the line ends. -/
def written (ls : List Lexeme) : List Lexeme :=
  ls.filter (!·.isLineEnd)

/-- The ranges of bytes before, between and behind some lexemes. -/
def gaps (start stop : Nat) : List Lexeme → List (Nat × Nat)
  | [] => [(start, stop)]
  | l :: ls => (start, l.start) :: gaps l.stop stop ls

/-- The lexemes of a source account for all of it. -/
structure Lossless (src : String) (ls : List Lexeme) : Prop where
  /-- Each lexeme starts where the one before it stops, or later. -/
  ordered : ls.Pairwise fun a b => a.stop ≤ b.start
  /-- Lexemes lie inside the source, between characters. -/
  inside : ∀ l ∈ ls, l.stop ≤ src.utf8ByteSize ∧ (slice? src.toList l.start l.stop).isSome
  nonempty : ∀ l ∈ ls, l.isLineEnd = false → l.start < l.stop
  /-- Names and literals carry the text they cover. -/
  own : ∀ l ∈ ls, l.token.hasOwnText = true →
    slice? src.toList l.start l.stop = some l.token.text.toList
  /-- Every other legal token covers its symbol. -/
  symbol : ∀ l ∈ ls, l.isLineEnd = false → l.token.hasOwnText = false →
    (∀ flaw, l.token ≠ .illegal flaw) →
    slice? src.toList l.start l.stop = some l.token.symbol.toList
  /-- What is not covered is fillers. -/
  filled : ∀ g ∈ gaps 0 src.utf8ByteSize (written ls), ∃ gap rest,
    slice? src.toList g.1 g.2 = some gap ∧ dropBytes? g.2 src.toList = some rest ∧
      Trivia g.1 gap rest

/-! ## Line ends and written lexemes -/

theorem isLineEnd_lineEnd (place : Nat) : (Lexeme.lineEnd place).isLineEnd = true := by
  simp [Lexeme.isLineEnd, Lexeme.lineEnd]

theorem isLineEnd_eq_false {start stop : Nat} (t : Token) (h : start < stop) :
    (Lexeme.mk start stop t).isLineEnd = false := by
  simp only [Lexeme.isLineEnd, Bool.and_eq_false_iff, beq_eq_false_iff_ne]
  exact Or.inr (Nat.ne_of_lt h)

/-- A line end lies inside its gap, at a boundary. -/
theorem mem_lineEnds {armed last : Bool} {offset : Nat} {gap : List Char} {l : Lexeme}
    (h : l ∈ lineEnds armed offset gap last) :
    ∃ before behind, gap = before ++ behind ∧ l = .lineEnd (offset + byteSize before) := by
  unfold lineEnds lineEnd? at h
  cases armed with
  | false => simp at h
  | true =>
      cases hi : gap.findIdx? Piece.isLineBreak with
      | some i =>
          simp [hi] at h
          exact ⟨gap.take i, gap.drop i, (List.take_append_drop i gap).symm, h⟩
      | none =>
          cases last with
          | false => simp [hi] at h
          | true =>
              simp [hi] at h
              exact ⟨gap, [], (List.append_nil gap).symm, h⟩

theorem written_lineEnds (armed last : Bool) (offset : Nat) (gap : List Char) :
    written (lineEnds armed offset gap last) = [] := by
  rw [written, List.filter_eq_nil_iff]
  intro l hl
  obtain ⟨before, behind, -, rfl⟩ := mem_lineEnds hl
  simp [isLineEnd_lineEnd]

theorem written_append (as bs : List Lexeme) : written (as ++ bs) = written as ++ written bs :=
  List.filter_append ..

/-- A token that is written out is a written lexeme. -/
theorem written_token {offset : Nat} {text rest : List Char} {t : Token}
    (h : t.WrittenAs text rest) (ls : List Lexeme) :
    written (⟨offset, offset + byteSize text, t⟩ :: ls) =
      ⟨offset, offset + byteSize text, t⟩ :: written ls := by
  have hpos := byteSize_pos h.nonempty
  rw [written, List.filter_cons_of_pos (by rw [isLineEnd_eq_false t (by omega)]; rfl)]
  rfl

/-! ## Reading a layout -/

/--
A lexeme lies in a text that starts at `offset`: it covers the bytes of a stretch
of the text, which is nothing for a line end and else what its token is written as.
-/
def Lexeme.LiesIn (offset : Nat) (cs : List Char) (l : Lexeme) : Prop :=
  ∃ before text rest, cs = before ++ (text ++ rest) ∧
    l.start = offset + byteSize before ∧ l.stop = l.start + byteSize text ∧
    (l.isLineEnd = false → l.token.WrittenAs text rest) ∧
    (l.isLineEnd = true → text = [])

theorem Lexeme.LiesIn.bounds {offset : Nat} {cs : List Char} {l : Lexeme}
    (h : l.LiesIn offset cs) :
    offset ≤ l.start ∧ l.start ≤ l.stop ∧ l.stop ≤ offset + byteSize cs := by
  obtain ⟨before, text, rest, rfl, hstart, hstop, -⟩ := h
  simp only [byteSize_append]
  omega

/-- A lexeme keeps its place when text is put in front. -/
theorem Lexeme.LiesIn.append {offset : Nat} {pre cs : List Char} {l : Lexeme}
    (h : l.LiesIn (offset + byteSize pre) cs) : l.LiesIn offset (pre ++ cs) := by
  obtain ⟨before, text, rest, rfl, hstart, hstop, hspec⟩ := h
  refine ⟨pre ++ before, text, rest, by rw [List.append_assoc], ?_, hstop, hspec⟩
  rw [hstart, byteSize_append, Nat.add_assoc]

theorem lineEnds_liesIn {armed last : Bool} {offset : Nat} {gap : List Char} {l : Lexeme}
    (h : l ∈ lineEnds armed offset gap last) (rest : List Char) : l.LiesIn offset (gap ++ rest) := by
  obtain ⟨before, behind, rfl, rfl⟩ := mem_lineEnds h
  refine ⟨before, [], behind ++ rest, by simp, rfl, rfl, ?_, fun _ => rfl⟩
  rw [isLineEnd_lineEnd]
  exact fun h => absurd h (by simp)

/-- Every lexeme of a layout lies in the text. -/
theorem Layout.liesIn {armed : Bool} {offset : Nat} {cs : List Char} {ls : List Lexeme}
    (h : Layout armed offset cs ls) : ∀ l ∈ ls, l.LiesIn offset cs := by
  induction h with
  | @done armed offset gap hgap =>
      intro l hl
      have := lineEnds_liesIn hl []
      rwa [List.append_nil] at this
  | @token armed offset gap text rest t ls hgap hwritten hrest ih =>
      intro l hl
      have hpos := byteSize_pos hwritten.nonempty
      have hnot := isLineEnd_eq_false t
        (show offset + byteSize gap < offset + byteSize gap + byteSize text by omega)
      rcases List.mem_append.mp hl with hl | hl
      · exact lineEnds_liesIn hl _
      · rcases List.mem_cons.mp hl with rfl | hl
        · exact ⟨gap, text, rest, rfl, rfl, rfl, fun _ => hwritten,
            fun h => absurd (hnot.symm.trans h) (by simp)⟩
        · exact Lexeme.LiesIn.append (Lexeme.LiesIn.append (ih l hl))

theorem pairwise_lineEnds (armed last : Bool) (offset : Nat) (gap : List Char)
    (R : Lexeme → Lexeme → Prop) : (lineEnds armed offset gap last).Pairwise R := by
  rw [lineEnds]
  split
  · cases lineEnd? offset gap last <;> simp
  · exact List.Pairwise.nil

/-- The lexemes of a layout are in order and apart. -/
theorem Layout.ordered {armed : Bool} {offset : Nat} {cs : List Char} {ls : List Lexeme}
    (h : Layout armed offset cs ls) : ls.Pairwise fun a b => a.stop ≤ b.start := by
  induction h with
  | done => exact pairwise_lineEnds ..
  | @token armed offset gap text rest t ls hgap hwritten hrest ih =>
      have hlater : ∀ l ∈ ls, offset + byteSize gap + byteSize text ≤ l.start :=
        fun l hl => (hrest.liesIn l hl).bounds.1
      refine List.pairwise_append.mpr ⟨pairwise_lineEnds .., List.pairwise_cons.mpr ⟨hlater, ih⟩, ?_⟩
      -- a line end stands in the gap, so before the token and all that follows it
      intro a ha b hb
      obtain ⟨before, behind, rfl, rfl⟩ := mem_lineEnds ha
      simp only [byteSize_append] at hlater ⊢
      show offset + byteSize before ≤ b.start
      rcases List.mem_cons.mp hb with rfl | hb
      · simp only [byteSize_append]
        omega
      · have := hlater b hb
        omega

/-- Between the written lexemes of a layout there are only fillers. -/
theorem Layout.filled {armed : Bool} {offset : Nat} {cs : List Char} {ls : List Lexeme}
    (h : Layout armed offset cs ls) :
    ∀ g ∈ gaps offset (offset + byteSize cs) (written ls), ∃ before gap rest,
      cs = before ++ (gap ++ rest) ∧ g.1 = offset + byteSize before ∧
        g.2 = g.1 + byteSize gap ∧ Trivia g.1 gap rest := by
  induction h with
  | @done armed offset gap hgap =>
      intro g hg
      rw [written_lineEnds] at hg
      obtain rfl := List.mem_singleton.mp hg
      exact ⟨[], gap, [], by simp, rfl, rfl, hgap⟩
  | @token armed offset gap text rest t ls hgap hwritten hrest ih =>
      intro g hg
      rw [written_append, written_lineEnds, written_token hwritten, List.nil_append] at hg
      rcases List.mem_cons.mp hg with rfl | hg
      · exact ⟨[], gap, text ++ rest, rfl, rfl, rfl, hgap⟩
      · simp only [byteSize_append, ← Nat.add_assoc] at hg
        obtain ⟨before, gap', rest', hcs, hstart, hstop, htrivia⟩ := ih g hg
        refine ⟨gap ++ (text ++ before), gap', rest', by simp [hcs], ?_, hstop, htrivia⟩
        simp only [hstart, byteSize_append]
        omega

/-! ## The whole source -/

/-- What a lexeme of a source covers, and what stands behind it. -/
theorem tokenize_slice {src : String} {l : Lexeme} (hl : l ∈ tokenize src) :
    ∃ text rest, slice? src.toList l.start l.stop = some text ∧
      dropBytes? l.stop src.toList = some rest ∧
      (l.isLineEnd = false → l.token.WrittenAs text rest) ∧ (l.isLineEnd = true → text = []) := by
  obtain ⟨before, text, rest, hsrc, hstart, hstop, hspec⟩ := (layout_tokenize src).liesIn l hl
  rw [Nat.zero_add] at hstart
  refine ⟨text, rest, ?_, ?_, hspec⟩
  · rw [hsrc, hstop, hstart, slice?_byteSize]
  · rw [hsrc, hstop, hstart, ← byteSize_append, ← List.append_assoc, dropBytes?_byteSize]

/-- The end of the source is not among its lexemes. -/
theorem ne_eof_of_mem_tokenize {src : String} {l : Lexeme} (hl : l ∈ tokenize src) :
    l.token ≠ .eof := by
  obtain ⟨text, rest, -, -, hspec, -⟩ := tokenize_slice hl
  cases hend : l.isLineEnd with
  | false => exact (hspec hend).ne_eof
  | true =>
      intro heof
      simp [Lexeme.isLineEnd, heof] at hend

theorem isLineEnd_of_hasOwnText {l : Lexeme} (h : l.token.hasOwnText = true) :
    l.isLineEnd = false := by
  simp only [Lexeme.isLineEnd, Bool.and_eq_false_iff, decide_eq_false_iff_not]
  refine Or.inl fun hsemi => ?_
  rw [hsemi] at h
  exact absurd h (by decide)

theorem lossless_tokenize (src : String) : Lossless src (tokenize src) where
  ordered := (layout_tokenize src).ordered
  inside l hl := by
    obtain ⟨text, rest, hslice, -⟩ := tokenize_slice hl
    have hb := ((layout_tokenize src).liesIn l hl).bounds.2.2
    rw [Nat.zero_add, byteSize_toList] at hb
    exact ⟨hb, by rw [hslice]; rfl⟩
  nonempty l hl hreal := by
    obtain ⟨before, text, rest, -, -, hstop, hspec, -⟩ := (layout_tokenize src).liesIn l hl
    have := byteSize_pos (hspec hreal).nonempty
    omega
  own l hl hown := by
    obtain ⟨text, rest, hslice, -, hspec, -⟩ := tokenize_slice hl
    rw [hslice, (hspec (isLineEnd_of_hasOwnText hown)).own hown]
  symbol l hl hreal hown hlegal := by
    obtain ⟨text, rest, hslice, -, hspec, -⟩ := tokenize_slice hl
    rw [hslice, (hspec hreal).symbol hown hlegal]
  filled g hg := by
    have hfilled := (layout_tokenize src).filled
    rw [byteSize_toList, Nat.zero_add] at hfilled
    obtain ⟨before, gap, rest, hsrc, hstart, hstop, htrivia⟩ := hfilled g hg
    rw [Nat.zero_add] at hstart
    refine ⟨gap, rest, ?_, ?_, htrivia⟩
    · rw [hsrc, hstop, hstart, slice?_byteSize]
    · rw [hsrc, hstop, hstart, ← byteSize_append, ← List.append_assoc, dropBytes?_byteSize]

/-- The bytes of a name or a literal are its text, as long as their offsets fit into a span. -/
theorem text_span_of_mem {src : String} {l : Lexeme} (hsmall : src.utf8ByteSize ≤ Span.maxOffset)
    (hl : l ∈ tokenize src) (hown : l.token.hasOwnText = true) : l.span.text src = l.token.text := by
  have hlossless := lossless_tokenize src
  have hwidth := hlossless.nonempty l hl (isLineEnd_of_hasOwnText hown)
  have hinside := (hlossless.inside l hl).1
  have hspan : l.span = ⟨l.start, l.stop⟩ := by
    rw [Lexeme.span, Span.of, Nat.min_eq_left (by omega), Nat.min_eq_left (by omega)]
  rw [hspan, Span.text, hlossless.own l hl hown]
  exact String.ofList_toList

/-- A lexeme that is spelled like a keyword is a name exactly if a name might go on behind it. -/
theorem tokenize_keyword {src : String} {l : Lexeme} {k : Keyword} (hl : l ∈ tokenize src)
    (hk : slice? src.toList l.start l.stop = some k.text.toList) :
    l.token = if ((dropBytes? l.stop src.toList).bind List.head?).any leadsLikeWord
      then .name k.text else .keyword k := by
  obtain ⟨text, rest, hslice, hrest, hspec, hempty⟩ := tokenize_slice hl
  obtain rfl : text = k.text.toList := by rw [hslice] at hk; exact Option.some.inj hk
  have hreal : l.isLineEnd = false := by
    by_contra h
    have := hempty (by simpa using h)
    cases k <;> simp [Keyword.text] at this
  rw [hrest]
  exact (hspec hreal).keyword k rfl

/--
**Lexing loses nothing.** The lexemes of a source account for all of it; and no
name among them is a keyword, except where a keyword's spelling has a character
right behind it that is outside ASCII and shares its first byte with a letter or
a decimal digit.
-/
theorem tokenize_lossless (src : String) :
    Lossless src (tokenize src) ∧
      ((∀ l ∈ tokenize src, ∀ s, l.token = .name s → Keyword.ofText? s = none) ↔
        ∀ l ∈ tokenize src, ∀ k : Keyword,
          slice? src.toList l.start l.stop = some k.text.toList →
          ∀ c, (dropBytes? l.stop src.toList).bind List.head? = some c →
            leadsLikeWord c = false) := by
  refine ⟨lossless_tokenize src, ?_, ?_⟩
  · intro hnames l hl k hk c hc
    have htoken := tokenize_keyword hl hk
    by_contra hlead
    rw [hc, Option.any_some, if_pos (by simpa using hlead)] at htoken
    have := hnames l hl _ htoken
    rw [Piece.ofText?_keyword] at this
    exact absurd this (by simp)
  · intro hbehind l hl s hs
    cases hk : Keyword.ofText? s with
    | none => rfl
    | some k =>
        have hown : l.token.hasOwnText = true := by rw [hs]; rfl
        have hslice := (lossless_tokenize src).own l hl hown
        rw [hs, show (Token.name s).text = s from rfl, ← Piece.ofText?_text hk] at hslice
        have htoken := tokenize_keyword hl hslice
        rw [hs] at htoken
        split at htoken
        · rename_i hlead
          obtain ⟨c, hc, hlead⟩ := (Option.any_eq_true _ _).mp hlead
          exact absurd hlead (by rw [hbehind l hl k hslice c hc]; simp)
        · exact absurd htoken (by simp)

/-- In front of an arrow, a keyword's spelling is read as a name. -/
theorem keyword_read_as_name :
    ¬ ∀ l ∈ tokenize "break→", ∀ s, l.token = .name s → Keyword.ofText? s = none := by
  have htokens : tokenize "break→" = [⟨0, 5, .name "break"⟩, ⟨5, 8, .illegal .invalidToken⟩] := by
    decide +kernel
  intro h
  have := h ⟨0, 5, .name "break"⟩ (by rw [htokens]; simp) "break" rfl
  exact absurd this (by decide)

end GoGloss
