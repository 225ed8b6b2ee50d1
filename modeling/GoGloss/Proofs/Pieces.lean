import Mathlib.Data.List.TakeDrop
import GoGloss.Lexeme
import GoGloss.Proofs.Bytes

/-!
# What a piece of source may be

`Piece.first` looks at the characters ahead and settles what the next piece is.
This file says what is true of the piece whichever way that went, in terms of the
source alone: the piece stands in front of a rest, and it is either a filler (a
blank, a line break, a whole comment, a byte order mark at the very start) or a
token written out in full.

`first_fits` is the one statement the later files use; the lemmas before it
settle one kind of piece each, and nothing after it opens `Piece.first` again.
-/

namespace GoGloss

open Character

/-! ## Fillers and spellings -/

/-- Text at `offset`, in front of `rest`, that separates tokens. -/
inductive Filler (offset : Nat) : List Char → List Char → Prop where
  | blank {c : Char} {rest : List Char} : Piece.isBlank c = true → Filler offset [c] rest
  | lineBreak {c : Char} {rest : List Char} : Piece.isLineBreak c = true → Filler offset [c] rest
  /-- A line comment is complete: only the end of its line or of the source follows it. -/
  | lineComment {body rest : List Char} :
      (∀ c ∈ body, Piece.isLineBreak c = false) →
      (∀ c ∈ rest.head?, Piece.isLineBreak c = true) →
      Filler offset ('/' :: '/' :: body) rest
  /-- A block comment ends at the first `*/` after its `/*`. -/
  | blockComment {body rest : List Char} :
      (∃ inside, body = inside ++ ['*', '/']) →
      (∀ before after, body = before ++ '*' :: '/' :: after → after = []) →
      Filler offset ('/' :: '*' :: body) rest
  | byteOrderMark {rest : List Char} : offset = 0 → Filler offset ['\uFEFF'] rest

/--
A token is written as `text`, with `rest` right behind it.

The last field is the rule for words: one that is spelled like a keyword is that
keyword, unless the first byte behind it could go on with a name.
-/
structure Token.WrittenAs (token : Token) (text rest : List Char) : Prop where
  nonempty : text ≠ []
  /-- The end of the source is not written at all. -/
  ne_eof : token ≠ .eof
  own : token.hasOwnText = true → token.text.toList = text
  symbol : token.hasOwnText = false → (∀ flaw, token ≠ .illegal flaw) →
    token.symbol.toList = text
  keyword : ∀ k : Keyword, k.text.toList = text →
    token = if rest.head?.any leadsLikeWord then .name k.text else .keyword k

/-- A piece at `offset`, in front of `rest`, is a filler or a token written out. -/
def Piece.Fits (offset : Nat) (p : Piece) (rest : List Char) : Prop :=
  match p.token? offset with
  | some token => token.WrittenAs p.text rest
  | none => Filler offset p.text rest

namespace Token

/-- Keywords start like names. -/
theorem keyword_head (k : Keyword) : k.text.toList.head?.any Piece.isNameStart = true := by
  cases k <;> rfl

/-- What does not start like a name is no keyword. -/
theorem keyword_ne {c : Char} {cs : List Char} (hc : Piece.isNameStart c = false)
    (k : Keyword) : k.text.toList ≠ c :: cs := by
  intro h
  have := keyword_head k
  rw [h] at this
  simp [hc] at this

theorem writtenAs_literal {c : Char} {cs rest : List Char} (kind : LiteralKind)
    (hc : Piece.isNameStart c = false) :
    (literal kind (String.ofList (c :: cs))).WrittenAs (c :: cs) rest where
  nonempty := by simp
  ne_eof := nofun
  own _ := String.toList_ofList
  symbol h := by simp [hasOwnText] at h
  keyword k h := absurd h (keyword_ne hc k)

theorem writtenAs_illegal {c : Char} {cs rest : List Char} (flaw : Flaw)
    (hc : Piece.isNameStart c = false) : (illegal flaw).WrittenAs (c :: cs) rest where
  nonempty := by simp
  ne_eof := nofun
  own h := by simp [hasOwnText] at h
  symbol _ h := absurd rfl (h flaw)
  keyword k h := absurd h (keyword_ne hc k)

end Token

namespace Piece

theorem ofToken_fits {token : Token} {text rest : List Char} (offset : Nat)
    (h : token.WrittenAs text rest) : (ofToken token text).Fits offset rest := h

theorem ofFlaw_fits {c : Char} {cs rest : List Char} (offset : Nat) (flaw : Flaw)
    (hc : isNameStart c = false) : (ofFlaw flaw (c :: cs)).Fits offset rest :=
  Token.writtenAs_illegal flaw hc

/-! ## Comments -/

/-- What `throughCommentEnd?` takes is in front, and ends at the first `*/`. -/
theorem throughCommentEnd?_spec {cs body : List Char} (h : throughCommentEnd? cs = some body) :
    (∃ rest, cs = body ++ rest) ∧ (∃ inside, body = inside ++ ['*', '/']) ∧
      ∀ before after, body = before ++ '*' :: '/' :: after → after = [] := by
  fun_induction throughCommentEnd? cs generalizing body with
  | case1 => simp at h
  | case2 cs =>
      cases h
      refine ⟨⟨cs, rfl⟩, ⟨[], rfl⟩, ?_⟩
      intro before after hb
      have := congrArg List.length hb
      simp only [List.length_append, List.length_cons, List.length_nil] at this
      exact List.eq_nil_of_length_eq_zero (by omega)
  | case3 c cs hne ih =>
      obtain ⟨body', hbody', rfl⟩ := Option.map_eq_some_iff.mp h
      obtain ⟨⟨rest, hrest⟩, ⟨inside, hinside⟩, hfirst⟩ := ih hbody'
      refine ⟨⟨rest, by rw [hrest]; rfl⟩, ⟨c :: inside, by rw [hinside]; rfl⟩, ?_⟩
      intro before after hb
      cases before with
      | nil =>
          -- then the comment would have ended right here
          obtain ⟨rfl, htail⟩ := List.cons.inj hb
          exact absurd (hrest.trans (by rw [htail]; rfl)) (hne (after ++ rest) rfl)
      | cons d before => exact hfirst before after (List.cons.inj hb).2

theorem blockComment_fits (offset : Nat) (cs : List Char) :
    ∃ rest, '/' :: '*' :: cs = (blockComment cs).text ++ rest ∧
      (blockComment cs).Fits offset rest := by
  rw [blockComment]
  cases h : throughCommentEnd? cs with
  | some body =>
      obtain ⟨⟨rest, hrest⟩, hends, hfirst⟩ := throughCommentEnd?_spec h
      exact ⟨rest, by rw [hrest]; rfl, Filler.blockComment hends hfirst⟩
  | none => exact ⟨[], by simp [ofFlaw, ofToken], ofFlaw_fits _ _ (by decide)⟩

theorem lineComment_fits (offset : Nat) (cs : List Char) :
    ∃ rest, '/' :: '/' :: cs = (lineComment cs).text ++ rest ∧
      (lineComment cs).Fits offset rest := by
  refine ⟨cs.dropWhile (!isLineBreak ·), ?_, Filler.lineComment ?_ ?_⟩
  · simp [lineComment]
  · intro c hc
    simpa using List.all_eq_true.mp List.all_takeWhile c hc
  · intro c hc
    have := List.head?_dropWhile_not (!isLineBreak ·) cs
    simp only [Option.mem_def] at hc
    simpa [hc] using this

/-! ## Words and marks -/

/-- The keyword found for a spelling has that spelling. -/
theorem ofText?_text {s : String} {k : Keyword} (h : Keyword.ofText? s = some k) :
    k.text = s := by
  simpa using List.find?_some h

/-- Every keyword is found by its spelling. -/
theorem ofText?_keyword (k : Keyword) : Keyword.ofText? k.text = some k := by
  cases k <;> rfl

/-- The token that a word is, by what stands behind it. -/
def wordToken (text rest : List Char) : Token :=
  match Keyword.ofText? (String.ofList text) with
  | some k => if rest.head?.any leadsLikeWord then .name (String.ofList text) else .keyword k
  | none => .name (String.ofList text)

theorem word_eq (cs : List Char) :
    word cs = ofToken (wordToken (cs.takeWhile isNamePart) (cs.dropWhile isNamePart))
      (cs.takeWhile isNamePart) := by
  rw [word, wordToken]
  cases Keyword.ofText? (String.ofList (cs.takeWhile isNamePart)) with
  | none => rfl
  | some k => dsimp only; split <;> rfl

theorem wordToken_writtenAs {text rest : List Char} (hne : text ≠ []) :
    (wordToken text rest).WrittenAs text rest := by
  rw [wordToken]
  cases h : Keyword.ofText? (String.ofList text) with
  | none =>
      refine ⟨hne, nofun, fun _ => String.toList_ofList, by simp [Token.hasOwnText], ?_⟩
      intro k hk
      rw [← hk, String.ofList_toList, ofText?_keyword] at h
      exact absurd h (by simp)
  | some k =>
      have hk : k.text.toList = text := by rw [ofText?_text h, String.toList_ofList]
      have huniq : ∀ k' : Keyword, k'.text.toList = text → k' = k := by
        intro k' hk'
        have := ofText?_keyword k'
        rw [← String.ofList_toList (s := k'.text), hk', h] at this
        exact (Option.some.inj this).symm
      dsimp only
      split
      · rename_i hlead
        refine ⟨hne, nofun, fun _ => String.toList_ofList, by simp [Token.hasOwnText], ?_⟩
        intro k' hk'
        rw [if_pos hlead, ← hk', String.ofList_toList]
      · rename_i hlead
        refine ⟨hne, nofun, by simp [Token.hasOwnText], fun _ _ => hk, ?_⟩
        intro k' hk'
        rw [if_neg hlead, huniq k' hk']

theorem word_fits (offset : Nat) {c : Char} (cs : List Char) (hc : isNameStart c = true) :
    ∃ rest, c :: cs = (word (c :: cs)).text ++ rest ∧ (word (c :: cs)).Fits offset rest := by
  have hne : (c :: cs).takeWhile isNamePart ≠ [] := by simp [isNamePart, hc]
  rw [word_eq]
  exact ⟨(c :: cs).dropWhile isNamePart, List.takeWhile_append_dropWhile.symm,
    wordToken_writtenAs hne⟩

theorem mark_fits (offset : Nat) {c : Char} (cs : List Char) (hc : isNameStart c = false) :
    ∃ rest, c :: cs = (mark c cs).text ++ rest ∧ (mark c cs).Fits offset rest := by
  rw [mark]
  cases h : Mark.longest? (c :: cs) with
  | none => exact ⟨cs, rfl, ofFlaw_fits _ _ hc⟩
  | some m =>
      have hpre := List.find?_some (p := fun m : Mark => m.text.toList.isPrefixOf (c :: cs)) h
      obtain ⟨rest, hrest⟩ := List.isPrefixOf_iff_prefix.mp hpre
      have hne : m.text.toList ≠ [] := by cases m <;> simp [Mark.text]
      refine ⟨rest, hrest.symm, hne, nofun, by simp [Token.hasOwnText], fun _ _ => rfl, ?_⟩
      intro k hk
      -- a mark in front of the source starts with `c`, which starts no name
      cases htext : m.text.toList with
      | nil => exact absurd htext hne
      | cons d ds =>
          rw [htext] at hrest
          obtain ⟨rfl, -⟩ := List.cons.inj hrest
          exact absurd (hk.trans htext) (Token.keyword_ne hc k)

end Piece

/-! ## Numbers -/

namespace Number

theorem run_append (digit : Char → Bool) (cs : List Char) :
    (run digit cs).1 ++ (run digit cs).2 = cs := by
  rw [run, List.span_eq_takeWhile_dropWhile]
  exact List.takeWhile_append_dropWhile

theorem scanFraction_append (b : Base) (cs : List Char) :
    (scanFraction b cs).1 ++ (scanFraction b cs).2 = cs := by
  fun_cases scanFraction b cs with
  | case1 cs => rfl
  | case2 cs _ => exact congrArg ('.' :: ·) (run_append b.holdsDigit cs)
  | case3 => rfl

theorem scanSign_append (cs : List Char) : (scanSign cs).1 ++ (scanSign cs).2 = cs := by
  fun_cases scanSign cs <;> rfl

theorem scanExponent_append (cs : List Char) :
    (scanExponent cs).1 ++ (scanExponent cs).2 = cs := by
  cases cs with
  | nil => rfl
  | cons c cs =>
      rw [scanExponent]
      split
      · show c :: ((scanSign cs).1 ++ (run Char.isDigit (scanSign cs).2).1) ++
          (run Char.isDigit (scanSign cs).2).2 = c :: cs
        rw [List.cons_append, List.append_assoc, run_append, scanSign_append]
      · rfl

/-- Scanning splits the source in two. -/
theorem scan_append (cs : List Char) : (scan cs).1 ++ (scan cs).2 = cs := by
  simp only [scan, List.append_assoc]
  rw [scanExponent_append, scanFraction_append, run_append, List.take_append_drop]

/-- A source that starts like a number has a number in front. -/
theorem scan_ne_nil {c : Char} {cs : List Char}
    (h : c.isDigit = true ∨ c = '.' ∧ cs.head?.any Char.isDigit = true) :
    (scan (c :: cs)).1 ≠ [] := by
  intro hnil
  simp only [scan, List.append_eq_nil_iff] at hnil
  obtain ⟨⟨⟨hlead, hwhole⟩, hfrac⟩, -⟩ := hnil
  -- without a lead the number is decimal
  have hdec : Base.announced (c :: cs) = .decimal := by
    by_contra hne
    simp [Base.leadLength, hne] at hlead
  simp only [hdec, Base.leadLength, if_true, List.drop_zero] at hwhole hfrac
  rcases h with hdigit | ⟨rfl, hnext⟩
  · simp [run, List.span_eq_takeWhile_dropWhile, Base.holdsDigit, hdigit] at hwhole
  · have hrun : (run Base.decimal.holdsDigit ('.' :: cs)).2 = '.' :: cs := by
      have := run_append Base.decimal.holdsDigit ('.' :: cs)
      rwa [hwhole] at this
    -- the point starts a fraction, for a digit and no second point follows it
    rw [hrun, scanFraction.eq_def] at hfrac
    split at hfrac
    · rename_i heq
      rw [(List.cons.inj heq).2] at hnext
      exact absurd hnext (by simp)
    · exact absurd hfrac (by simp)
    · rename_i hother
      exact hother cs rfl

end Number

namespace Piece

theorem number_fits (offset : Nat) {c : Char} {cs : List Char} (hc : isNameStart c = false)
    (h : c.isDigit = true ∨ c = '.' ∧ cs.head?.any Char.isDigit = true) :
    ∃ rest, c :: cs = (number (c :: cs)).text ++ rest ∧
      (number (c :: cs)).Fits offset rest := by
  have happ := Number.scan_append (c :: cs)
  have hne := Number.scan_ne_nil h
  rw [number]
  -- the scanned text starts with `c`, so it is spelled like no keyword
  rcases hscan : Number.scan (c :: cs) with ⟨lit, rest⟩
  rw [hscan] at happ hne
  obtain ⟨lit, rfl⟩ : ∃ l, lit = c :: l := by
    cases lit with
    | nil => exact absurd rfl hne
    | cons d lit => exact ⟨lit, by rw [(List.cons.inj happ).1]⟩
  dsimp only
  split
  · -- an `i` right behind the number belongs to it
    rename_i rest' hrest
    obtain ⟨rfl, rfl⟩ := Prod.mk.inj hrest
    refine ⟨rest', by split <;> simpa [ofToken, ofFlaw] using happ.symm, ?_⟩
    split
    · exact Token.writtenAs_literal _ hc
    · exact ofFlaw_fits _ _ hc
  · rename_i hrest
    obtain ⟨rfl, rfl⟩ := Prod.mk.inj hrest
    refine ⟨rest, by split <;> exact happ.symm, ?_⟩
    split
    · exact Token.writtenAs_literal _ hc
    · exact Token.writtenAs_literal _ hc
    · exact ofFlaw_fits _ _ hc

end Piece

/-! ## Quoted texts -/

namespace Quoted

theorem items_append (quote : Char) (cs : List Char) :
    (items quote cs).1 ++ (items quote cs).2 = cs := by
  fun_induction items quote cs with
  | case1 => rfl
  | case2 => rfl
  | case3 c cs _ taken rest heq ih => rw [heq] at ih; simpa using ih
  | case4 c cs _ _ taken rest heq ih => rw [heq] at ih; simpa using ih
  | case5 => rfl

/-- A judgement on a complete literal: it is one with the text given, or it is illegal. -/
def Judges (judge : Char → List Char → String → Token) : Prop :=
  ∀ quote body text, (∃ kind, judge quote body text = .literal kind text) ∨
    ∃ flaw, judge quote body text = .illegal flaw

theorem stringToken_judges : Judges stringToken := by
  intro quote body text
  rw [stringToken]
  split
  · exact Or.inl ⟨_, rfl⟩
  · exact Or.inr ⟨_, rfl⟩

theorem runeToken_judges : Judges runeToken := by
  intro quote body text
  unfold runeToken
  split
  · exact Or.inl ⟨_, rfl⟩
  · split
    · exact Or.inr ⟨_, rfl⟩
    · split
      · exact Or.inl ⟨_, rfl⟩
      · exact Or.inr ⟨_, rfl⟩
  · exact Or.inr ⟨_, rfl⟩

end Quoted

namespace Piece

theorem quoted_fits (offset : Nat) {judge : Char → List Char → String → Token}
    (hj : Quoted.Judges judge) {quote : Char} (hq : isNameStart quote = false) (cs : List Char) :
    ∃ rest, quote :: cs = (quoted judge quote cs).text ++ rest ∧
      (quoted judge quote cs).Fits offset rest := by
  have happ := Quoted.items_append quote cs
  rw [quoted]
  rcases hitems : Quoted.items quote cs with ⟨body, rest⟩
  rw [hitems] at happ
  dsimp only at happ ⊢
  split
  · -- the closing quote is part of the piece
    rename_i hclose
    obtain ⟨rest, rfl⟩ := List.head?_eq_some_iff.mp hclose
    refine ⟨rest, by simp [ofToken, ← happ], ofToken_fits _ ?_⟩
    rcases hj quote body (String.ofList (quote :: (body ++ [quote]))) with ⟨kind, h⟩ | ⟨flaw, h⟩
    · rw [h]; exact Token.writtenAs_literal _ hq
    · rw [h]; exact Token.writtenAs_illegal _ hq
  · exact ⟨rest, by simp [ofToken, ofFlaw, ← happ], ofFlaw_fits _ _ hq⟩

theorem rune_fits (offset : Nat) (cs : List Char) :
    ∃ rest, '\x27' :: cs = (rune cs).text ++ rest ∧ (rune cs).Fits offset rest := by
  rw [rune]
  split
  · exact ⟨cs, rfl, ofFlaw_fits _ _ (by decide)⟩
  · exact quoted_fits offset Quoted.runeToken_judges (by decide) cs

theorem rawString_fits (offset : Nat) (cs : List Char) :
    ∃ rest, '\x60' :: cs = (rawString cs).text ++ rest ∧ (rawString cs).Fits offset rest := by
  have happ := List.takeWhile_append_dropWhile (p := (· ≠ '\x60')) (l := cs)
  rw [rawString]
  dsimp only
  split
  · -- the text ends before the source does, so a backquote is what ends it
    rename_i hlt
    have hstop := List.head?_dropWhile_not (· ≠ '\x60') cs
    obtain ⟨c, rest, hrest⟩ : ∃ c rest, cs.dropWhile (· ≠ '\x60') = c :: rest := by
      cases h : cs.dropWhile (· ≠ '\x60') with
      | nil => rw [h, List.append_nil] at happ; rw [happ] at hlt; omega
      | cons c rest => exact ⟨c, rest, rfl⟩
    rw [hrest] at happ hstop
    obtain rfl : c = '\x60' := by simpa using hstop
    refine ⟨rest, ?_, Token.writtenAs_literal _ (by decide)⟩
    simp only [ofToken, List.cons_append, List.append_assoc, List.nil_append, happ]
  · refine ⟨cs.dropWhile (· ≠ '\x60'), ?_, ofFlaw_fits _ _ (by decide)⟩
    simp only [ofFlaw, ofToken, List.cons_append, happ]

/-! ## The first piece -/

/--
**The first piece of a source stands in front of it and is what it claims to be.**

All that the later files need to know about how a source is cut.
-/
theorem first_fits (offset : Nat) (c : Char) (cs : List Char) :
    ∃ rest, c :: cs = (first c cs).text ++ rest ∧ (first c cs).Fits offset rest := by
  unfold first
  split
  · exact ⟨cs, rfl, Filler.blank ‹_›⟩
  split
  · exact ⟨cs, rfl, Filler.lineBreak ‹_›⟩
  split
  · -- a byte order mark is a filler at the start only
    rename_i hc
    subst hc
    refine ⟨cs, rfl, ?_⟩
    by_cases h0 : offset = 0
    · simp only [Fits, token?, if_pos h0]
      exact Filler.byteOrderMark h0
    · simp only [Fits, token?, if_neg h0]
      refine ⟨by simp, nofun, by simp [Token.hasOwnText], by simp, ?_⟩
      intro k hk
      cases k <;> simp [Keyword.text] at hk
  split
  · exact word_fits offset cs ‹_›
  rename_i hstart
  replace hstart : isNameStart c = false := by simpa using hstart
  split
  · rename_i hnum
    exact number_fits offset hstart (by simpa using hnum)
  split
  · rename_i hc; subst hc; exact rawString_fits offset cs
  split
  · exact quoted_fits offset Quoted.stringToken_judges hstart cs
  split
  · rename_i hc; subst hc; exact rune_fits offset cs
  split
  · exact lineComment_fits offset _
  · exact blockComment_fits offset _
  · exact mark_fits offset cs hstart

/-! ## All pieces -/

theorem cut_eq_drop (skip : Nat) (cs : List Char) : cut skip cs = cut 0 (cs.drop skip) := by
  induction cs generalizing skip with
  | nil => cases skip <;> rfl
  | cons c cs ih =>
      cases skip with
      | zero => rfl
      | succ skip => exact ih skip

/-- After its first piece, a source is cut like a source of its own. -/
theorem cut_cons {c : Char} {cs rest : List Char} (h : c :: cs = (first c cs).text ++ rest)
    (hne : (first c cs).text ≠ []) : cut 0 (c :: cs) = first c cs :: cut 0 rest := by
  rw [cut, cut_eq_drop]
  congr 2
  cases htext : (first c cs).text with
  | nil => exact absurd htext hne
  | cons d text =>
      rw [htext] at h
      rw [(List.cons.inj h).2]
      simp

end Piece

end GoGloss
