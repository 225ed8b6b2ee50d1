import GoGloss.Proofs.Spelling
import GoGloss.Proofs.TrailingNewlines

/-!
# The canonical spelling

The tokens of a source can be written out again, each as its text, with single blanks
between them and with the semicolons that stand for line ends written as semicolons.
If nothing is wrong with the source, that text has the same tokens: it is a canonical
spelling, and spelling it again changes nothing.

What a token is depends on its own text and on a little of what follows it. In front
of a blank it is the same as in the source. The one exception, a name spelled like a
keyword, comes about only in front of a character that is itself no token.
-/

namespace GoGloss

open Character Piece

/-! ## Sources without flaws -/

section

variable {armed : Bool} {offset : Nat} {p : Piece} {ps : List Piece} {t : Token}

theorem legal_of_token (htoken : p.token? offset = some t)
    (h : lexicalDiagnostics (Lexeme.ofPieces armed offset (p :: ps)) = []) :
    (∀ flaw, t ≠ .illegal flaw) ∧
      lexicalDiagnostics (Lexeme.ofPieces t.endsStatement (offset + byteSize p.text) ps) = [] := by
  rw [ofPieces_token _ htoken, lexicalDiagnostics, List.filterMap_cons] at h
  split at h
  · rename_i hlegal
    refine ⟨?_, h⟩
    rintro flaw rfl
    simp [Lexeme.diagnostic?] at hlegal
  · simp at h

/-- A legal token is a piece of its own kind. -/
theorem Piece.kind_of_token? (htoken : p.token? offset = some t)
    (hlegal : ∀ flaw, t ≠ .illegal flaw) : p.kind = .token t := by
  rw [Piece.token?] at htoken
  split at htoken
  · rename_i hkind
    rw [hkind, Option.some.inj htoken]
  · split at htoken
    · simp at htoken
    · exact absurd (Option.some.inj htoken).symm (hlegal _)
  all_goals simp at htoken

end

/-- Outside of ASCII there are only names, byte order marks, and what is no token. -/
theorem first_of_not_ascii {c : Char} (cs : List Char) (hc : 0x80 ≤ c.toNat)
    (hname : isNameStart c = false) :
    first c cs = ⟨.byteOrderMark, [c]⟩ ∨ first c cs = ofFlaw .invalidToken [c] := by
  have hne : ∀ d : Char, d.toNat < 0x80 → c ≠ d := by
    rintro d hd rfl
    omega
  have hdigit : c.isDigit = false := by
    by_contra h
    simp only [Bool.not_eq_false, Char.isDigit, Bool.and_eq_true, decide_eq_true_eq] at h
    have hhigh : c.toNat ≤ 57 := h.2
    omega
  have hmark : Mark.longest? (c :: cs) = none := by
    have hascii : ∀ m ∈ Mark.all, m.text.toList.head?.any (·.toNat < 0x80) = true := by
      decide +kernel
    refine List.find?_eq_none.mpr fun m hm hpre => ?_
    have hhead := hascii m hm
    obtain ⟨rest, hrest⟩ := List.isPrefixOf_iff_prefix.mp hpre
    cases htext : m.text.toList with
    | nil => simp [htext] at hhead
    | cons d ds =>
        rw [htext] at hrest hhead
        obtain ⟨rfl, -⟩ := List.cons.inj hrest
        exact hne d (by simpa using hhead) rfl
  by_cases hbom : c = '\uFEFF'
  · subst hbom
    exact .inl (by simp [first, isBlank, isLineBreak])
  · refine .inr ?_
    simp [first, isBlank, isLineBreak, hbom, hname, hdigit, hne ' ' (by decide),
      hne '\t' (by decide), hne '\x0c' (by decide), hne '\n' (by decide), hne '\r' (by decide),
      hne '.' (by decide), hne '\x60' (by decide), hne '\x22' (by decide), hne '\x27' (by decide),
      hne '/' (by decide), mark, hmark]

/-- Behind the start of a source, a legal character that leads like a word is part of one. -/
theorem isNamePart_of_legal {armed : Bool} {offset : Nat} {cs : List Char} (hoffset : offset ≠ 0)
    (h : lexicalDiagnostics (Lexeme.ofPieces armed offset (cut 0 cs)) = [])
    (hlead : cs.head?.any leadsLikeWord = true) : cs.head?.any isNamePart = true := by
  cases cs with
  | nil => simp at hlead
  | cons c cs =>
      have hc : 0x80 ≤ c.toNat := by
        rw [List.head?_cons, Option.any_some, leadsLikeWord, Bool.and_eq_true] at hlead
        exact of_decide_eq_true hlead.1
      by_contra hpart
      have hname : isNameStart c = false := by
        simp only [List.head?_cons, Option.any_some, isNamePart, Bool.or_eq_true, not_or] at hpart
        simpa using hpart.1
      rw [cut] at h
      have htoken : (first c cs).token? offset = some (.illegal .invalidToken) := by
        rcases first_of_not_ascii cs hc hname with hfirst | hfirst
        · simp [hfirst, token?, hoffset]
        · simp [hfirst, token?, ofFlaw, ofToken]
      exact (legal_of_token htoken h).1 .invalidToken rfl

/-- The text of a legal token is how it is written. -/
theorem Token.WrittenAs.text_eq {t : Token} {text rest : List Char} (h : t.WrittenAs text rest)
    (hlegal : ∀ flaw, t ≠ .illegal flaw) : t.text.toList = text := by
  cases t with
  | name _ | literal _ _ => exact h.own rfl
  | keyword _ | mark _ => exact h.symbol rfl hlegal
  | illegal flaw => exact absurd rfl (hlegal flaw)
  | eof => exact absurd rfl h.ne_eof

/-- A legal token in front of legal ones is the same in front of a blank. -/
theorem readApart_of_legal {armed : Bool} {offset : Nat} {c : Char} {text rest : List Char}
    {t : Token} (htoken : (first c (text ++ rest)).kind = .token t)
    (htext : (first c (text ++ rest)).text = c :: text) (hlegal : ∀ flaw, t ≠ .illegal flaw)
    (hoffset : offset ≠ 0)
    (hrest : lexicalDiagnostics (Lexeme.ofPieces armed offset (cut 0 rest)) = []) :
    t.ReadApart := by
  have hwritten : t.text.toList = c :: text := by
    obtain ⟨_, -, hfits⟩ := first_fits 0 c (text ++ rest)
    rw [Piece.Fits, Piece.token?, htoken, htext] at hfits
    exact hfits.text_eq hlegal
  refine ⟨hlegal, fun rest' hapart => ?_⟩
  have hparted : Parted rest' := by
    intro d hd
    rw [hapart d hd]
    decide
  have hsame : first c (text ++ rest') = first c (text ++ rest) := by
    have hfits : c :: text = (first c (text ++ rest)).text ++ [] := by
      rw [htext, List.append_nil]
    refine first_local hfits ?_ (isNamePart_of_legal hoffset hrest) (by simp) hparted ?_
    · intro flaw hflaw
      rw [htoken] at hflaw
      exact hlegal flaw (PieceKind.token.inj hflaw)
    · intro hcomment
      rw [htoken] at hcomment
      exact absurd hcomment (by simp)
  have hpiece : first c (text ++ rest') = ofToken t (c :: text) := by
    rw [hsame, ofToken, ← htoken, ← htext]
  rw [hwritten, List.cons_append, ← hpiece]
  refine cut_cons ?_ ?_
  · rw [hpiece]; rfl
  · rw [hpiece]; simp [ofToken]

/-- All tokens of a source without flaws are the same in front of a blank. -/
theorem readApart_of_mem {armed : Bool} {offset : Nat} {cs : List Char}
    (h : lexicalDiagnostics (Lexeme.ofPieces armed offset (cut 0 cs)) = []) :
    ∀ l ∈ Lexeme.ofPieces armed offset (cut 0 cs), l.token.ReadApart := by
  have hline : ∀ place, (Lexeme.lineEnd place).token.ReadApart := fun _ =>
    readApart_of_isSpelled rfl
  generalize hps : cut 0 cs = ps at h
  induction ps generalizing armed offset cs with
  | nil =>
      intro l hl
      rw [Lexeme.ofPieces] at hl
      split at hl
      · rw [List.mem_singleton.mp hl]
        exact hline offset
      · exact absurd hl List.not_mem_nil
  | cons p ps ih =>
      obtain ⟨c, text, rest, htext, rfl, hp, hrest⟩ := cut_eq_cons hps
      have hoffset : offset + byteSize p.text ≠ 0 := by
        have hpos : 0 < byteSize p.text := byteSize_pos (by rw [htext]; simp)
        omega
      intro l hl
      cases htoken : p.token? offset with
      | some t =>
          obtain ⟨hlegal, hdiags⟩ := legal_of_token htoken h
          rw [ofPieces_token _ htoken] at hl
          rcases List.mem_cons.mp hl with rfl | hl
          · subst hp
            rw [← hrest] at hdiags
            exact readApart_of_legal (kind_of_token? htoken hlegal) htext hlegal hoffset hdiags
          · exact ih hrest hdiags l hl
      | none =>
          rw [ofPieces_filler _ htoken] at h hl
          rw [lexicalDiagnostics, List.filterMap_append, List.append_eq_nil_iff] at h
          rcases List.mem_append.mp hl with hl | hl
          · rw [fillerLineEnds] at hl
            split at hl
            · obtain ⟨place, -, rfl⟩ := List.mem_map.mp hl
              exact hline place
            · exact absurd hl List.not_mem_nil
          · exact ih hrest h.2 l hl

/-- The last token of a source cannot end a statement: else the end of its line follows it. -/
theorem endsStatement_getLast? (armed : Bool) (offset : Nat) (ps : List Piece) :
    (((Lexeme.ofPieces armed offset ps).map Lexeme.token).getLast?.map
      Token.endsStatement).getD armed = false := by
  induction ps generalizing armed offset with
  | nil => cases armed <;> rfl
  | cons p ps ih =>
      cases htoken : p.token? offset with
      | some t =>
          have hlast := ih t.endsStatement (offset + byteSize p.text)
          rw [ofPieces_token _ htoken, List.map_cons, List.getLast?_cons, Option.map_some,
            Option.getD_some]
          rwa [Option.getD_map] at hlast
      | none =>
          have hlast := ih (armed && (lineBreak? offset p.text).isNone) (offset + byteSize p.text)
          rw [ofPieces_filler _ htoken, List.map_append, List.getLast?_append]
          generalize Lexeme.ofPieces _ _ ps = ls at hlast ⊢
          cases hls : (ls.map Lexeme.token).getLast? with
          | some t => simpa [hls] using hlast
          | none =>
              -- nothing follows the filler, so if it is armed it has the line end
              rw [hls] at hlast
              rw [fillerLineEnds]
              cases hbreak : lineBreak? offset p.text <;> cases armed <;> simp_all [Lexeme.lineEnd,
                Token.endsStatement]

/-! ## The main statement -/

/--
**Writing the tokens of a source apart does not change them.** If nothing is wrong with
a source, its tokens, spelled with single blanks between them, are read as the same
tokens. None of them stands for a line end, and nothing is complained about.
-/
theorem tokenize_spaced_tokenize {src c : String} (hsrc : lexicalDiagnostics (tokenize src) = [])
    (hc : c = spaced ((tokenize src).map Lexeme.token)) :
    lexicalDiagnostics (tokenize c) = [] ∧
      (tokenize c).map Lexeme.token = (tokenize src).map Lexeme.token ∧
      ∀ l ∈ tokenize c, l.isLineEnd = false := by
  have happart : ∀ t ∈ (tokenize src).map Lexeme.token, t.ReadApart := by
    rw [List.forall_mem_map]
    exact readApart_of_mem hsrc
  obtain ⟨ls, last, hls, htokens, hwritten⟩ := ofPieces_row happart false 0
  have hend : (((tokenize src).map Lexeme.token).getLast?.map Token.endsStatement).getD false =
      false := endsStatement_getLast? false 0 (Piece.ofSource src)
  rw [hend, if_neg (by decide), List.append_nil] at hls
  have hrow : tokenize c = ls := by
    rw [hc]
    exact hls
  rw [hrow]
  refine ⟨?_, htokens, fun l hl => ?_⟩
  · rw [lexicalDiagnostics_eq_nil_iff, htokens, ← lexicalDiagnostics_eq_nil_iff]
    exact hsrc
  · -- a semicolon that is written has a width
    by_contra hline
    rw [Bool.not_eq_false, Lexeme.isLineEnd, Bool.and_eq_true, decide_eq_true_eq, beq_iff_eq] at hline
    have hstop : l.stop = l.start + 1 := by
      have h := hwritten l hl
      rw [Lexeme.Written, hline.1] at h
      exact h
    omega

/-- A source with a comment, two line ends, and a raw string that holds a line break. -/
theorem tokenize_spaced_tokenize_lines :
    lexicalDiagnostics (tokenize "x:=08i//a\ny+++\x60\n\x60") = [] ∧
      (tokenize "x := 08i ; y ++ + \x60\n\x60 ;").map Lexeme.token =
        (tokenize "x:=08i//a\ny+++\x60\n\x60").map Lexeme.token ∧
      ∀ l ∈ tokenize "x := 08i ; y ++ + \x60\n\x60 ;", l.isLineEnd = false := by
  have hsrc : lexicalDiagnostics (tokenize "x:=08i//a\ny+++\x60\n\x60") = [] := by decide +kernel
  have hc : "x := 08i ; y ++ + \x60\n\x60 ;" =
      spaced ((tokenize "x:=08i//a\ny+++\x60\n\x60").map Lexeme.token) := by decide +kernel
  exact ⟨hsrc, (tokenize_spaced_tokenize hsrc hc).2⟩

end GoGloss
