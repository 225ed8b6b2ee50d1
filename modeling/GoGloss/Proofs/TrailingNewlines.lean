import GoGloss.Proofs.Locality
import GoGloss.Proofs.SameTokens

/-!
# Newlines at the end

Newlines at the end of a source change nothing. The last line ends there with or
without them: where the source stops, at the first newline, or behind a comment, and
in all these cases the semicolon for the line end stands at the same place.

A source that is flawed stays so. What is open at its end, a string, a raw string or
a comment, is not closed by a newline, and a newline is no part of any other piece.
So the two sources have the same pieces as soon as one of them is free of flaws.
-/

namespace GoGloss

open Character Grammar

/-- Some newlines. -/
def newlines (k : Nat) : String :=
  String.ofList (List.replicate k '\n')

/-! ## Flaws -/

/-- The pieces of legal lexemes are complete. -/
theorem kind_ne_illegal {armed : Bool} {offset : Nat} {ps : List Piece}
    (h : lexicalDiagnostics (Lexeme.ofPieces armed offset ps) = []) :
    ∀ p ∈ ps, ∀ flaw, p.kind ≠ .token (.illegal flaw) := by
  induction ps generalizing armed offset with
  | nil => simp
  | cons p ps ih =>
      cases htoken : p.token? offset with
      | none =>
          rw [ofPieces_filler _ htoken, lexicalDiagnostics, List.filterMap_append,
            List.append_eq_nil_iff] at h
          rintro q (_ | ⟨_, hq⟩) flaw hkind
          · simp [Piece.token?, hkind] at htoken
          · exact ih h.2 q hq flaw hkind
      | some t =>
          rw [ofPieces_token _ htoken, lexicalDiagnostics, List.filterMap_cons] at h
          rintro q (_ | ⟨_, hq⟩) flaw hkind
          · obtain rfl : .illegal flaw = t := by simpa [Piece.token?, hkind] using htoken
            simp [Lexeme.diagnostic?] at h
          · split at h
            · exact ih h q hq flaw hkind
            · cases h

namespace Number

theorem run_newline {digit : Char → Bool} (hdigit : digit '\n' = false) (cs : List Char) :
    '\n' ∉ (run digit cs).1 := by
  rw [run, List.span_eq_takeWhile_dropWhile]
  intro h
  have := List.all_eq_true.mp List.all_takeWhile _ h
  simp [hdigit] at this

theorem holdsDigit_newline (b : Base) : b.holdsDigit '\n' = false := by
  cases b <;> decide

theorem scanFraction_newline (b : Base) (cs : List Char) : '\n' ∉ (scanFraction b cs).1 := by
  fun_cases scanFraction b cs with
  | case1 cs => simp
  | case2 cs _ => simpa using run_newline (holdsDigit_newline b) cs
  | case3 cs => simp

theorem scanExponent_newline (cs : List Char) : '\n' ∉ (scanExponent cs).1 := by
  have hsign : ∀ cs, '\n' ∉ (scanSign cs).1 := by
    intro cs
    fun_cases scanSign cs <;> simp
  cases cs with
  | nil => simp [scanExponent]
  | cons c cs =>
      rw [scanExponent]
      split
      · rename_i hletter
        have hc : '\n' ≠ c := by
          rintro rfl
          simp [Base.hasExponent] at hletter
        simpa [hc] using ⟨hsign cs, run_newline (by decide) (scanSign cs).2⟩
      · simp

/-- No newline is part of a number. -/
theorem scan_newline (cs : List Char) : '\n' ∉ (scan cs).1 := by
  have hlead : '\n' ∉ cs.take (Base.announced cs).leadLength := by
    fun_cases Base.announced cs <;> simp [Base.leadLength]
  simp only [scan, List.mem_append, not_or]
  exact ⟨⟨⟨hlead, run_newline (holdsDigit_newline _) _⟩, scanFraction_newline _ _⟩,
    scanExponent_newline _⟩

end Number

namespace Piece

/-! ## How pieces end -/

theorem rawString_getLast? {cs : List Char}
    (hlegal : ∀ flaw, (rawString cs).kind ≠ .token (.illegal flaw)) :
    (rawString cs).text.getLast? = some '\x60' := by
  rw [rawString] at hlegal ⊢
  dsimp only at hlegal ⊢
  split at hlegal
  · rename_i hclosed
    rw [if_pos hclosed]
    exact List.getLast?_concat
  · exact absurd rfl (hlegal .invalidToken)

theorem quoted_getLast? {judge : Char → List Char → String → Token} {quote : Char}
    {cs : List Char} (hlegal : ∀ flaw, (quoted judge quote cs).kind ≠ .token (.illegal flaw)) :
    (quoted judge quote cs).text.getLast? = some quote := by
  rcases hitems : Quoted.items quote cs with ⟨body, rest⟩
  rw [quoted, hitems] at hlegal ⊢
  dsimp only at hlegal ⊢
  split at hlegal
  · rename_i hclosed
    rw [if_pos hclosed]
    show (quote :: body ++ [quote]).getLast? = some quote
    exact List.getLast?_concat
  · exact absurd rfl (hlegal .invalidToken)

theorem rune_getLast? {cs : List Char}
    (hlegal : ∀ flaw, (rune cs).kind ≠ .token (.illegal flaw)) :
    (rune cs).text.getLast? = some '\x27' := by
  rw [rune] at hlegal ⊢
  split at hlegal
  · exact absurd rfl (hlegal .invalidToken)
  · rw [if_neg ‹_›]
    exact quoted_getLast? hlegal

theorem blockComment_getLast? {cs : List Char}
    (hlegal : ∀ flaw, (blockComment cs).kind ≠ .token (.illegal flaw)) :
    (blockComment cs).text.getLast? = some '/' := by
  rw [blockComment] at hlegal ⊢
  cases h : throughCommentEnd? cs with
  | none => exact absurd rfl (h ▸ hlegal .unterminatedComment)
  | some body =>
      obtain ⟨-, ⟨inside, rfl⟩, -⟩ := throughCommentEnd?_spec h
      simp [List.getLast?_cons]

/-- A complete piece of several characters does not end with a newline. -/
theorem getLast?_ne_newline {c : Char} {cs : List Char}
    (hlegal : ∀ flaw, (first c cs).kind ≠ .token (.illegal flaw))
    (hlong : 1 < (first c cs).text.length) : (first c cs).text.getLast? ≠ some '\n' := by
  have hpromise := lead_promises c cs.head?
  rw [first_eq] at hlegal hlong ⊢
  generalize lead c cs.head? = start at hlegal hlong hpromise
  cases start with
  | blank | lineBreak | byteOrderMark => simp [Lead.piece] at hlong
  | word =>
      intro h
      rw [Lead.piece, word_eq] at h
      have := List.all_eq_true.mp List.all_takeWhile _ (List.mem_of_getLast? h)
      simp [show isNamePart '\n' = false by decide] at this
  | number =>
      rcases hscan : Number.scan (c :: cs) with ⟨lit, rest⟩
      rw [Lead.piece, number_eq hscan, numberPiece_text]
      have hlit : '\n' ∉ lit := by simpa [hscan] using Number.scan_newline (c :: cs)
      split
      · simp
      · exact fun h => hlit (List.mem_of_getLast? h)
  | rawString => simp [Lead.piece, rawString_getLast? hlegal]
  | string =>
      obtain rfl := hpromise
      simp [Lead.piece, quoted_getLast? hlegal]
  | rune => simp [Lead.piece, rune_getLast? hlegal]
  | lineComment =>
      intro h
      have := List.mem_of_getLast? h
      simp only [Lead.piece, lineComment, List.mem_cons] at this
      rcases this with h | h | h
      · simp at h
      · simp at h
      · simpa [isLineBreak] using List.all_eq_true.mp List.all_takeWhile _ h
  | blockComment => simp [Lead.piece, blockComment_getLast? hlegal]
  | mark =>
      have hmark : ∀ m ∈ Mark.all, m.text.toList.getLast? ≠ some '\n' := by decide +kernel
      rw [Lead.piece, mark] at hlegal ⊢
      cases h : Mark.longest? (c :: cs) with
      | none => exact absurd rfl (h ▸ hlegal .invalidToken)
      | some m => exact hmark m (List.mem_of_find?_eq_some h)

/-- The complete pieces of a source with newlines behind it end where the source ends. -/
theorem cut_append_newlines {cs rest : List Char} (hrest : ∀ c ∈ rest, c = '\n')
    (hlegal : ∀ p ∈ cut 0 (cs ++ rest), ∀ flaw, p.kind ≠ .token (.illegal flaw)) :
    ∃ ps, cut 0 (cs ++ rest) = ps ++ cut 0 rest ∧ ps.flatMap text = cs := by
  induction hn : cs.length using Nat.strongRecOn generalizing cs with
  | ind n ih =>
    cases cs with
    | nil => exact ⟨[], rfl, rfl⟩
    | cons c cs =>
        obtain ⟨after, hafter, hpiece⟩ := first_fits 0 c (cs ++ rest)
        have hcut := cut_cons hafter hpiece.text_ne_nil
        rw [List.cons_append, hcut] at hlegal
        have hp := hlegal _ List.mem_cons_self
        have hpre : (first c (cs ++ rest)).text <+: c :: cs ++ rest := ⟨after, hafter.symm⟩
        have hfits : (first c (cs ++ rest)).text <+: c :: cs := by
          rcases Nat.lt_or_ge (c :: cs).length (first c (cs ++ rest)).text.length with hlt | hle
          · -- a piece that goes on into the newlines would end with one
            obtain ⟨more, hmore⟩ := List.prefix_of_prefix_length_le
              (List.prefix_append (c :: cs) rest) hpre (Nat.le_of_lt hlt)
            refine absurd ?_ (getLast?_ne_newline hp (by simp at hlt; omega))
            have hne : more ≠ [] := by rintro rfl; rw [← hmore] at hlt; simp at hlt
            rw [← hmore, List.getLast?_append, List.getLast?_eq_some_getLast hne, Option.some_or]
            have hmem : more.getLast hne ∈ rest := by
              rw [← hmore, List.prefix_append_right_inj] at hpre
              exact hpre.subset (List.getLast_mem hne)
            rw [hrest _ hmem]
          · exact List.prefix_of_prefix_length_le hpre (List.prefix_append _ rest) hle
        obtain ⟨mid, hmid⟩ := hfits
        have hsame : after = mid ++ rest := by
          rw [← List.cons_append, ← hmid, List.append_assoc] at hafter
          exact (List.append_cancel_left hafter).symm
        have hlt : mid.length < n := by
          have := List.length_pos_iff.mpr hpiece.text_ne_nil
          rw [← hn, ← hmid, List.length_append]; omega
        obtain ⟨ps, hps, htexts⟩ := ih _ hlt
          (fun p hp => hlegal p (List.mem_cons_of_mem _ (hsame ▸ hp))) rfl
        exact ⟨_ :: ps, by rw [List.cons_append, hcut, hsame, hps]; rfl,
          by rw [List.flatMap_cons, htexts, hmid]⟩

end Piece

/-! ## The same lexemes -/

/-- A newline as a piece of source. -/
def newlinePiece : Piece :=
  ⟨.lineBreak, ['\n']⟩

theorem cut_newlines (k : Nat) :
    Piece.cut 0 (List.replicate k '\n') = List.replicate k newlinePiece := by
  induction k with
  | zero => rfl
  | succ k ih =>
      rw [List.replicate_succ, List.replicate_succ, ← ih]
      rfl

/-- The line ends at the first newline, as it would without any. -/
theorem ofPieces_newlines (armed : Bool) (offset k : Nat) :
    Lexeme.ofPieces armed offset (List.replicate k newlinePiece) =
      Lexeme.ofPieces armed offset [] := by
  induction k generalizing armed offset with
  | zero => rfl
  | succ k ih =>
      rw [List.replicate_succ, ofPieces_filler _ rfl, ih]
      cases armed <;> rfl

theorem ofPieces_append_newlines (armed : Bool) (offset : Nat) (ps : List Piece) (k : Nat) :
    Lexeme.ofPieces armed offset (ps ++ List.replicate k newlinePiece) =
      Lexeme.ofPieces armed offset ps := by
  induction ps generalizing armed offset with
  | nil => exact ofPieces_newlines armed offset k
  | cons p ps ih =>
      cases htoken : p.token? offset with
      | none => rw [List.cons_append, ofPieces_filler _ htoken, ofPieces_filler _ htoken, ih]
      | some t => rw [List.cons_append, ofPieces_token _ htoken, ofPieces_token _ htoken, ih]

/-- Where the pieces are those of the source and the newlines, the lexemes are the same. -/
theorem tokenize_eq_of_cut {src : String} {k : Nat}
    (h : Piece.cut 0 (src.toList ++ List.replicate k '\n') =
      Piece.cut 0 src.toList ++ Piece.cut 0 (List.replicate k '\n')) :
    tokenize (src ++ newlines k) = tokenize src := by
  rw [tokenize, tokenize, Piece.ofSource, Piece.ofSource, newlines, String.toList_append,
    String.toList_ofList, h, cut_newlines, ofPieces_append_newlines]

theorem tokenize_append_newlines {src : String} (k : Nat)
    (h : lexicalDiagnostics (tokenize src) = []) :
    tokenize (src ++ newlines k) = tokenize src := by
  have hcut : Piece.cut 0 (src.toList ++ []) = Piece.cut 0 src.toList ++ Piece.cut 0 [] := by
    simp [Piece.cut]
  refine tokenize_eq_of_cut (Piece.cut_local hcut (Piece.flatMap_text_cut _)
    (kind_ne_illegal h) (by simp) (by simp) ?_)
  intro d hd
  rw [List.eq_of_mem_replicate (List.mem_of_mem_head? hd)]
  rfl

/-- Newlines behind a flawed source do not mend it. -/
theorem tokenize_of_append_newlines {src : String} {k : Nat}
    (h : lexicalDiagnostics (tokenize (src ++ newlines k)) = []) :
    tokenize (src ++ newlines k) = tokenize src := by
  have hlegal := kind_ne_illegal h
  rw [Piece.ofSource, newlines, String.toList_append, String.toList_ofList] at hlegal
  have hnewline : ∀ c ∈ List.replicate k '\n', c = '\n' := fun c hc => List.eq_of_mem_replicate hc
  obtain ⟨ps, hps, htexts⟩ := Piece.cut_append_newlines hnewline hlegal
  have hhead : ∀ c ∈ (List.replicate k '\n').head?, c = '\n' :=
    fun c hc => hnewline c (List.mem_of_mem_head? hc)
  have hsrc : Piece.cut 0 (src.toList ++ []) = ps ++ Piece.cut 0 [] := by
    refine Piece.cut_local hps htexts (fun p hp => hlegal p ?_) ?_ ?_ (by simp)
    · rw [hps]
      exact List.mem_append_left _ hp
    · intro hlead
      obtain ⟨c, hc, hword⟩ := Option.any_eq_true _ _ |>.mp hlead
      rw [hhead c hc] at hword
      exact absurd hword (by decide)
    · exact fun _ _ _ hpoint => absurd (hhead '.' hpoint) (by decide)
  simp only [List.append_nil, Piece.cut] at hsrc
  exact tokenize_eq_of_cut (by rw [hps, hsrc])

/-- Sources with the same lexemes are explained by the same text. -/
theorem explain_iff_of_tokenize_eq {a b : String} (h : tokenize a = tokenize b)
    (ha : lexicalDiagnostics (tokenize a) = []) (english : String) :
    explain a = .ok english ↔ explain b = .ok english := by
  have hsame : SameTokens a b := by rw [SameTokens, h]
  have hoption : (explain a).toOption = (explain b).toOption := by
    refine toOption_explainFrom _ (fun category => ?_) [] []
    cases category with
    | expression => exact (hsame.read wholeExpr_agree Expr.english_bare ha).map
    | declaration => exact (hsame.read wholeDecl_agree Decl.english_bare ha).map
    | statement => exact (hsame.read wholeStmt_agree Stmt.english_bare ha).map
  cases ha : explain a <;> cases hb : explain b <;>
    simp_all [Except.toOption]

/-- A flawed source is not explained. -/
theorem lexicalDiagnostics_of_explain {src english : String} (h : explain src = .ok english) :
    lexicalDiagnostics (tokenize src) = [] := by
  rcases accepted_of_explain h with ⟨f, hf⟩ | ⟨f, hf⟩ | ⟨f, hf⟩
  · exact lexicalDiagnostics_of_read hf
  · exact lexicalDiagnostics_of_read hf
  · exact lexicalDiagnostics_of_read hf

/--
**Newlines at the end change nothing.** A source without flaws has the same lexemes with
newlines behind it, each at the same place, and any source is explained by the same text
with them as without them, or not at all.
-/
theorem append_newlines (src : String) (k : Nat) :
    (lexicalDiagnostics (tokenize src) = [] →
      tokenize (src ++ newlines k) = tokenize src ∧
      lexicalDiagnostics (tokenize (src ++ newlines k)) = []) ∧
    ∀ english, explain src = .ok english ↔ explain (src ++ newlines k) = .ok english := by
  have hsame : lexicalDiagnostics (tokenize src) = [] →
      tokenize (src ++ newlines k) = tokenize src := tokenize_append_newlines k
  refine ⟨fun h => ⟨hsame h, (hsame h).symm ▸ h⟩, fun english => ⟨fun h => ?_, fun h => ?_⟩⟩
  · have hlegal := lexicalDiagnostics_of_explain h
    exact (explain_iff_of_tokenize_eq (hsame hlegal).symm hlegal english).mp h
  · have hlegal := lexicalDiagnostics_of_explain h
    exact (explain_iff_of_tokenize_eq (tokenize_of_append_newlines hlegal) hlegal english).mp h

/-- A line comment that the source ends in, with two newlines behind it. -/
theorem append_newlines_comment :
    lexicalDiagnostics (tokenize "x := 1 // one") = [] ∧
    tokenize ("x := 1 // one" ++ newlines 2) = tokenize "x := 1 // one" := by
  have hlegal : lexicalDiagnostics (tokenize "x := 1 // one") = [] := by decide +kernel
  exact ⟨hlegal, ((append_newlines _ 2).1 hlegal).1⟩

end GoGloss
