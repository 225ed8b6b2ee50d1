import GoGloss.Proofs.Locality
import GoGloss.Proofs.Tower

/-!
# Tokens written apart

Tokens that are written one after the other may run together: `<` and `-` become
an arrow, `a` and `b` one name. With a blank between any two of them they do not.
An identifier, a keyword or a mark in front of a blank, or at the end, is read
back as the token that it is the text of (`cut_spelled`), and so is a whole row of
them (`tokenize_spaced`).
-/

namespace GoGloss

open Character Piece

/-! ## Rows of tokens -/

/-- Whether a text is that of an identifier. Keywords are none. -/
def isIdentifier (text : String) : Bool :=
  text.toList.head?.any isNameStart && text.toList.all isNamePart && (Keyword.ofText? text).isNone

/-- Whether the text of a token says which one it is. Literals are left out. -/
def Token.isSpelled : Token → Bool
  | .name text => isIdentifier text
  | .keyword _ | .mark _ => true
  | .literal .. | .illegal _ | .eof => false

/-- The texts of some tokens with single blanks between them. -/
def spaced (ts : List Token) : String :=
  String.intercalate " " (ts.map Token.text)

/-- What stands behind a token that is written apart: a blank, or nothing. -/
def Apart (rest : List Char) : Prop :=
  ∀ c ∈ rest.head?, c = ' '

theorem Apart.head {rest : List Char} (h : Apart rest) {p : Char → Bool}
    (hp : p ' ' = false) : ∀ c ∈ rest.head?, p c = false := by
  intro c hc
  rw [h c hc]
  exact hp

/-- Whether a mark ends in front of a character, which is then part of something else. -/
def Mark.endsBefore (m : Mark) (d : Char) : Bool :=
  !(Mark.all.any fun longer => (m.text.toList ++ [d]).isPrefixOf longer.text.toList) &&
    !(decide (m = .dot) && d.isDigit) && !(decide (m = .slash) && (d == '/' || d == '*'))

namespace Piece

/-! ## Words -/

theorem first_of_isNameStart {c : Char} (cs : List Char) (hc : isNameStart c = true) :
    first c cs = word (c :: cs) := by
  have hne : ∀ d, isNameStart d = false → c ≠ d := by
    rintro d hd rfl
    simp [hc] at hd
  have hblank : isBlank c = false := by
    simp [isBlank, hne ' ' (by decide), hne '\t' (by decide), hne '\x0c' (by decide)]
  have hbreak : isLineBreak c = false := by
    simp [isLineBreak, hne '\n' (by decide), hne '\r' (by decide)]
  simp [first, hblank, hbreak, hne '\uFEFF' (by decide +kernel), hc]

/-- The characters of a name are one word, whatever they spell. -/
theorem cut_word {text rest : List Char} (hstart : text.head?.any isNameStart = true)
    (hparts : text.all isNamePart = true) (hrest : ∀ c ∈ rest.head?, isNamePart c = false) :
    cut 0 (text ++ rest) = ofToken (wordToken text rest) text :: cut 0 rest := by
  cases text with
  | nil => simp at hstart
  | cons c cs =>
      have htext : (c :: cs ++ rest).takeWhile isNamePart = c :: cs :=
        takeWhile_eq_iff.mpr ⟨List.all_eq_true.mp hparts, hrest⟩
      have hword : word (c :: (cs ++ rest)) = ofToken (wordToken (c :: cs) rest) (c :: cs) := by
        rw [word_eq, ← List.cons_append, htext, dropWhile_of_takeWhile htext]
      have hfirst := (first_of_isNameStart (cs ++ rest) (by simpa using hstart)).trans hword
      rw [List.cons_append, ← hfirst]
      exact cut_cons (by rw [hfirst]; rfl) (by simp [hfirst, ofToken])

theorem cut_identifier {text : String} {rest : List Char} (h : isIdentifier text = true)
    (hrest : ∀ c ∈ rest.head?, isNamePart c = false) :
    cut 0 (text.toList ++ rest) = ofToken (.name text) text.toList :: cut 0 rest := by
  simp only [isIdentifier, Bool.and_eq_true, Option.isNone_iff_eq_none] at h
  rw [cut_word h.1.1 h.1.2 hrest, wordToken, String.ofList_toList, h.2]

theorem keyword_parts (k : Keyword) : k.text.toList.all isNamePart = true := by
  have hall : ∀ k ∈ Keyword.all, k.text.toList.all isNamePart = true := by decide +kernel
  exact hall k (by cases k <;> decide)

theorem cut_keyword (k : Keyword) {rest : List Char}
    (hrest : ∀ c ∈ rest.head?, (isNamePart c || leadsLikeWord c) = false) :
    cut 0 (k.text.toList ++ rest) = ofToken (.keyword k) k.text.toList :: cut 0 rest := by
  have hpart : ∀ c ∈ rest.head?, isNamePart c = false := fun c hc =>
    (Bool.or_eq_false_iff.mp (hrest c hc)).1
  have hlead : rest.head?.any leadsLikeWord = false := by
    rw [Option.any_eq_false]
    exact fun c hc => (Bool.or_eq_false_iff.mp (hrest c hc)).2
  rw [cut_word (Token.keyword_head k) (keyword_parts k) hpart, wordToken, String.ofList_toList,
    ofText?_keyword]
  simp [hlead]

/-! ## Marks -/

/-- Whether a character starts neither a word nor a literal, and separates nothing. -/
def startsMark (c : Char) : Bool :=
  !(isBlank c || isLineBreak c || c == '\uFEFF' || isNameStart c || c.isDigit || c == '\x60'
    || c == '\x22' || c == '\x27')

/-- A mark is not taken for a comment or a number. -/
theorem first_of_startsMark {c : Char} {cs : List Char} (hc : startsMark c = true)
    (hpoint : c = '.' → ∀ d ∈ cs.head?, d.isDigit = false)
    (hslash : c = '/' → ∀ d ∈ cs.head?, d ≠ '/' ∧ d ≠ '*') : first c cs = mark c cs := by
  have hlead : lead c none = .mark := by
    simp only [startsMark, Bool.not_eq_true', Bool.or_eq_false_iff, beq_eq_false_iff_ne] at hc
    obtain ⟨⟨⟨⟨⟨⟨⟨hblank, hbreak⟩, hbom⟩, hname⟩, hnumber⟩, hraw⟩, hstring⟩, hrune⟩ := hc
    simp [lead, hblank, hbreak, hbom, hname, hnumber, hraw, hstring, hrune]
  rw [first_eq, lead_eq_none, hlead]
  · rfl
  · rintro ⟨hc, hdigit⟩
    rw [Option.any_eq_true] at hdigit
    obtain ⟨d, hd, hdigit⟩ := hdigit
    exact absurd (hpoint hc d hd) (by simp [hdigit])
  · exact fun hc => ⟨fun h => (hslash hc '/' h).1 rfl, fun h => (hslash hc '*' h).2 rfl⟩

/-- The longest mark in front of something that it does not go on with. -/
theorem longest?_append {m : Mark} {rest : List Char}
    (hrest : ∀ d ∈ rest.head?, m.endsBefore d = true) :
    Mark.longest? (m.text.toList ++ rest) = Mark.longest? m.text.toList := by
  refine List.find?_congr fun longer hmem => ?_
  rw [Bool.eq_iff_iff, List.isPrefixOf_iff_prefix, List.isPrefixOf_iff_prefix]
  refine ⟨fun h => ?_, fun h => h.trans (List.prefix_append _ _)⟩
  rcases Nat.lt_or_ge m.text.toList.length longer.text.toList.length with hlt | hle
  · -- a longer mark would go on with the first character of the rest
    obtain ⟨more, hmore⟩ : m.text.toList <+: longer.text.toList :=
      List.prefix_of_prefix_length_le (List.prefix_append _ _) h (Nat.le_of_lt hlt)
    rw [← hmore] at h hlt
    cases more with
    | nil => simp at hlt
    | cons d more =>
        obtain ⟨after, hafter⟩ := (List.prefix_append_right_inj _).mp h
        have hends := hrest d (by rw [← hafter]; rfl)
        have hgoes : (Mark.all.any fun longer =>
            (m.text.toList ++ [d]).isPrefixOf longer.text.toList) = true := by
          refine List.any_eq_true.mpr ⟨longer, hmem, ?_⟩
          rw [List.isPrefixOf_iff_prefix, ← hmore]
          exact ⟨more, by simp⟩
        rw [Mark.endsBefore, hgoes] at hends
        simp at hends
  · exact List.prefix_of_prefix_length_le h (List.prefix_append _ _) hle

theorem mem_markAll (m : Mark) : m ∈ Mark.all := by
  cases m <;> decide

theorem startsMark_head (m : Mark) : m.text.toList.head?.any startsMark = true := by
  have hall : ∀ m ∈ Mark.all, m.text.toList.head?.any startsMark = true := by decide +kernel
  exact hall m (mem_markAll m)

/-- Behind its first character a mark has nothing that could make a number or a comment of it. -/
theorem markTail_plain (m : Mark) :
    m.text.toList.tail.all (fun d => !d.isDigit && d != '/' && d != '*') = true := by
  have hall : ∀ m ∈ Mark.all, m.text.toList.tail.all
      (fun d => !d.isDigit && d != '/' && d != '*') = true := by decide +kernel
  exact hall m (mem_markAll m)

theorem cut_mark (m : Mark) {rest : List Char}
    (hrest : ∀ d ∈ rest.head?, m.endsBefore d = true) :
    cut 0 (m.text.toList ++ rest) = ofToken (.mark m) m.text.toList :: cut 0 rest := by
  have hm := mem_markAll m
  have hstart := startsMark_head m
  have hlongest : ∀ m ∈ Mark.all, Mark.longest? m.text.toList = some m := by decide +kernel
  have hpoint : ∀ m ∈ Mark.all, m.text.toList = ['.'] → m = .dot := by decide +kernel
  have hslash : ∀ m ∈ Mark.all, m.text.toList = ['/'] → m = .slash := by decide +kernel
  have hlong := (longest?_append hrest).trans (hlongest m hm)
  cases htext : m.text.toList with
  | nil => simp [htext] at hstart
  | cons c cs =>
      -- what follows the first character is in the mark, or the mark is a point or a slash
      have hnext : ∀ d ∈ (cs ++ rest).head?, (c = '.' → d.isDigit = false) ∧
          (c = '/' → d ≠ '/' ∧ d ≠ '*') := by
        intro d hd
        cases cs with
        | nil =>
            have hends := hrest d hd
            refine ⟨?_, ?_⟩
            · rintro rfl
              obtain rfl := hpoint m hm htext
              simpa [Mark.endsBefore] using (Bool.and_eq_true _ _ |>.mp
                (Bool.and_eq_true _ _ |>.mp hends).1).2
            · rintro rfl
              obtain rfl := hslash m hm htext
              simpa [Mark.endsBefore] using (Bool.and_eq_true _ _ |>.mp hends).2
        | cons e cs =>
            obtain rfl : e = d := by simpa using hd
            have := markTail_plain m
            simp [htext] at this
            simp [this]
      have hfirst : first c (cs ++ rest) = ofToken (.mark m) (c :: cs) := by
        rw [first_of_startsMark (by simpa [htext] using hstart)
          (fun hc d hd => (hnext d hd).1 hc) (fun hc d hd => (hnext d hd).2 hc), mark,
          ← List.cons_append, ← htext, hlong]
      rw [List.cons_append, ← hfirst]
      exact cut_cons (by rw [hfirst]; rfl) (by simp [hfirst, ofToken])

/-- Every mark ends in front of a blank. -/
theorem endsBefore_blank (m : Mark) : m.endsBefore ' ' = true := by
  have hall : ∀ m ∈ Mark.all, m.endsBefore ' ' = true := by decide +kernel
  exact hall m (by cases m <;> decide)

/-- **A token written apart is read back.** -/
theorem cut_spelled {t : Token} {rest : List Char} (ht : t.isSpelled = true)
    (hrest : Apart rest) :
    cut 0 (t.text.toList ++ rest) = ofToken t t.text.toList :: cut 0 rest := by
  cases t with
  | name text => exact cut_identifier ht (hrest.head (by decide))
  | keyword k => exact cut_keyword k (hrest.head (by decide))
  | mark m =>
      refine cut_mark m fun d hd => ?_
      rw [hrest d hd]
      exact endsBefore_blank m
  | literal | illegal | eof => cases ht

end Piece

/-! ## Rows of pieces -/

/-- The pieces of legal tokens, each written as its text, with blanks among them. -/
inductive TokenRow : List Piece → List Token → Prop
  | nil : TokenRow [] []
  | blank {ps : List Piece} {ts : List Token} : TokenRow ps ts → TokenRow (⟨.blank, [' ']⟩ :: ps) ts
  | token {ps : List Piece} {ts : List Token} {t : Token} : (∀ flaw, t ≠ .illegal flaw) →
      TokenRow ps ts → TokenRow (ofToken t t.text.toList :: ps) (t :: ts)

theorem TokenRow.append {ps qs : List Piece} {ts us : List Token} (h : TokenRow ps ts)
    (h' : TokenRow qs us) : TokenRow (ps ++ qs) (ts ++ us) := by
  induction h with
  | nil => exact h'
  | blank _ ih => exact ih.blank
  | token hlegal _ ih => exact ih.token hlegal

theorem TokenRow.legal {ps : List Piece} {ts : List Token} (h : TokenRow ps ts) :
    ∀ t ∈ ts, ∀ flaw, t ≠ .illegal flaw := by
  induction h with
  | nil => simp
  | blank _ ih => exact ih
  | token hlegal _ ih => exact List.forall_mem_cons.mpr ⟨hlegal, ih⟩

/-- A lexeme that has the text of its token in the source. -/
def Lexeme.Written (l : Lexeme) : Prop :=
  l.stop = l.start + byteSize l.token.text.toList

/-- The lexemes of a row, and a line end if the last token can end a statement. -/
theorem TokenRow.ofPieces {ps : List Piece} {ts : List Token} (h : TokenRow ps ts) (armed : Bool)
    (offset : Nat) :
    ∃ ls last, Lexeme.ofPieces armed offset ps =
        ls ++ (if (ts.getLast?.map Token.endsStatement).getD armed then [Lexeme.lineEnd last]
          else []) ∧
      ls.map Lexeme.token = ts ∧ ∀ l ∈ ls, l.Written := by
  induction h generalizing armed offset with
  | nil => exact ⟨[], offset, rfl, rfl, by simp⟩
  | blank _ ih =>
      have hblank : fillerLineEnds armed offset [' '] = [] := by cases armed <;> rfl
      rw [ofPieces_filler _ rfl]
      simpa [lineBreak?, isLineBreak, hblank] using ih armed (offset + byteSize [' '])
  | @token ps ts t _ _ ih =>
      obtain ⟨ls, last, hls, htokens, hwritten⟩ :=
        ih t.endsStatement (offset + byteSize t.text.toList)
      have hpiece : (ofToken t t.text.toList).text = t.text.toList := rfl
      rw [ofPieces_token _ rfl, hpiece, hls]
      refine ⟨⟨offset, offset + byteSize t.text.toList, t⟩ :: ls, last, ?_, congrArg _ htokens,
        List.forall_mem_cons.mpr ⟨rfl, hwritten⟩⟩
      cases ts with
      | nil => rfl
      | cons u ts => simp [List.getLast?_cons]

/-- Text that is read as some tokens in front of a rest. -/
def SpeltAs (text : List Char) (ts : List Token) (rest : List Char) : Prop :=
  ∃ ps, TokenRow ps ts ∧ cut 0 (text ++ rest) = ps ++ cut 0 rest

section SpeltAs

variable {text text' rest : List Char} {ts us : List Token}

theorem speltAs_nil : SpeltAs [] [] rest :=
  ⟨[], .nil, rfl⟩

theorem SpeltAs.append (h : SpeltAs text ts (text' ++ rest)) (h' : SpeltAs text' us rest) :
    SpeltAs (text ++ text') (ts ++ us) rest := by
  obtain ⟨ps, hps, hcut⟩ := h
  obtain ⟨qs, hqs, hcut'⟩ := h'
  refine ⟨ps ++ qs, hps.append hqs, ?_⟩
  rw [List.append_assoc, hcut, hcut', List.append_assoc]

theorem speltAs_token {t : Token} (hlegal : ∀ flaw, t ≠ .illegal flaw)
    (h : cut 0 (t.text.toList ++ rest) = ofToken t t.text.toList :: cut 0 rest) :
    SpeltAs t.text.toList [t] rest :=
  ⟨_, .token hlegal .nil, h⟩

theorem speltAs_blank : SpeltAs [' '] [] rest :=
  ⟨_, .blank .nil, rfl⟩

/-- Nothing is complained about if no token is illegal. -/
theorem lexicalDiagnostics_eq_nil_iff {ls : List Lexeme} :
    lexicalDiagnostics ls = [] ↔ ∀ t ∈ ls.map Lexeme.token, ∀ flaw, t ≠ .illegal flaw := by
  rw [lexicalDiagnostics, List.filterMap_eq_nil_iff, List.forall_mem_map]
  refine forall₂_congr fun l _ => ?_
  unfold Lexeme.diagnostic?
  split
  · rename_i flaw hflaw
    exact iff_of_false (by simp) fun h => h flaw hflaw
  · rename_i hlegal
    exact iff_of_true rfl hlegal

/-- A source that is read as some tokens, the last of which can end a statement. -/
theorem SpeltAs.tokenize {src : String} (h : SpeltAs src.toList ts [])
    (hlast : (ts.getLast?.map Token.endsStatement).getD false = true) :
    lexicalDiagnostics (tokenize src) = [] ∧
      ∃ ls last, tokenize src = ls ++ [Lexeme.lineEnd last] ∧ ls.map Lexeme.token = ts := by
  obtain ⟨ps, hrow, hcut⟩ := h
  obtain ⟨ls, last, hls, htokens, -⟩ := hrow.ofPieces false 0
  rw [List.append_nil, cut, List.append_nil] at hcut
  rw [← hcut, if_pos hlast] at hls
  have hsrc : GoGloss.tokenize src = ls ++ [Lexeme.lineEnd last] := hls
  rw [hsrc]
  refine ⟨?_, ls, last, rfl, htokens⟩
  rw [lexicalDiagnostics_eq_nil_iff, List.map_append, htokens, List.forall_mem_append]
  exact ⟨hrow.legal, by simp [Lexeme.lineEnd]⟩

end SpeltAs

/-! ## Rows of tokens are read back -/

theorem toList_spaced_cons (t u : Token) (ts : List Token) :
    (spaced (t :: u :: ts)).toList = t.text.toList ++ ([' '] ++ (spaced (u :: ts)).toList) := by
  simp [spaced, String.toList_intercalate]

theorem apart_nil : Apart [] := by
  simp [Apart]

theorem apart_blank (rest : List Char) : Apart (' ' :: rest) := by
  simp [Apart]

/-- A legal token that is read back from its text when it is written apart. -/
structure Token.ReadApart (t : Token) : Prop where
  legal : ∀ flaw, t ≠ .illegal flaw
  cut : ∀ rest, Apart rest → cut 0 (t.text.toList ++ rest) = ofToken t t.text.toList :: cut 0 rest

theorem readApart_of_isSpelled {t : Token} (h : t.isSpelled = true) : t.ReadApart where
  legal := by
    rintro flaw rfl
    cases h
  cut _ hrest := cut_spelled h hrest

theorem speltAs_spaced {ts : List Token} (h : ∀ t ∈ ts, t.ReadApart) :
    SpeltAs (spaced ts).toList ts [] := by
  induction ts with
  | nil => exact speltAs_nil
  | cons t ts ih =>
      rw [List.forall_mem_cons] at h
      cases ts with
      | nil =>
          have htext : (spaced [t]).toList = t.text.toList := by simp [spaced]
          rw [htext]
          exact speltAs_token h.1.legal (h.1.cut [] apart_nil)
      | cons u ts =>
          rw [toList_spaced_cons]
          exact (speltAs_token h.1.legal (h.1.cut _ (apart_blank _))).append
            (speltAs_blank.append (ih h.2))

/-- The lexemes of a row of tokens, and a line end if the last one can end a statement. -/
theorem ofPieces_row {ts : List Token} (h : ∀ t ∈ ts, t.ReadApart) (armed : Bool) (offset : Nat) :
    ∃ ls last, Lexeme.ofPieces armed offset (cut 0 (spaced ts).toList) =
        ls ++ (if (ts.getLast?.map Token.endsStatement).getD armed then [Lexeme.lineEnd last]
          else []) ∧
      ls.map Lexeme.token = ts ∧ ∀ l ∈ ls, l.Written := by
  obtain ⟨ps, hps, hcut⟩ := speltAs_spaced h
  rw [List.append_nil, cut, List.append_nil] at hcut
  rw [hcut]
  exact hps.ofPieces armed offset

/-- A row of tokens is read back from its text. -/
theorem tokenize_spaced {ts : List Token} (h : ∀ t ∈ ts, t.isSpelled = true)
    (hlast : (ts.getLast?.map Token.endsStatement).getD false = true) :
    ∃ ls last, tokenize (spaced ts) = ls ++ [Lexeme.lineEnd last] ∧ ls.map Lexeme.token = ts :=
  ((speltAs_spaced fun t ht => readApart_of_isSpelled (h t ht)).tokenize hlast).2

/-- No complaint is made about a row of tokens. -/
theorem lexicalDiagnostics_spaced {ts : List Token} (h : ∀ t ∈ ts, t.isSpelled = true)
    (hlast : (ts.getLast?.map Token.endsStatement).getD false = true) :
    lexicalDiagnostics (tokenize (spaced ts)) = [] :=
  ((speltAs_spaced fun t ht => readApart_of_isSpelled (h t ht)).tokenize hlast).1

end GoGloss
