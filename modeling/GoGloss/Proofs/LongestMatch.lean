import GoGloss.Proofs.EscapeGrammar
import GoGloss.Proofs.ImaginaryNumbers
import GoGloss.Proofs.Lossless
import GoGloss.Proofs.Spelling

/-!
# Tokens are as long as they can be

Where a token starts, no longer stretch of the source is a token on its own. Names,
marks and quoted texts are cut off where they end, and a number is cut off where no
number can go on. There is one exception: a point that follows a number and that
another point follows is left alone, although the number could end with it.
-/

namespace GoGloss

open Character

namespace Number

variable {b : Base} {w whole f e r : List Char}

/-! ## Where a number ends -/

/-- What is taken of a number behind the announcement of its base. -/
def taken (b : Base) (cs : List Char) : List Char :=
  let (whole, cs) := run b.holdsDigit cs
  let (fraction, cs) := scanFraction b cs
  whole ++ (fraction ++ (scanExponent cs).1)

theorem scan_eq_taken (cs : List Char) :
    (scan cs).1 = cs.take (Base.announced cs).leadLength ++
      taken (Base.announced cs) (cs.drop (Base.announced cs).leadLength) := by
  simp [scan, taken]

/-- A run goes at least as far as it is one. -/
theorem prefix_run {digit : Char → Bool} (hw : ∀ c ∈ w, (c == '_' || digit c) = true) :
    w <+: (run digit (w ++ r)).1 := by
  rw [run, List.span_eq_takeWhile_dropWhile, List.takeWhile_append_of_pos hw]
  exact List.prefix_append ..

/-- The letter of an exponent is no digit, and no point. -/
theorem Base.exponent_head (he : e ∈ b.exponent) :
    ∃ c v, e = c :: v ∧ c ≠ '.' ∧ (c == '_' || b.holdsDigit c) = false := by
  obtain ⟨c, v, rfl⟩ := List.exists_cons_of_ne_nil
    (show e ≠ [] by rintro rfl; exact nil_notMem_one_mul he)
  exact ⟨c, v, rfl, head_before_i [] (.inr he) c rfl⟩

/-- An exponent that is complete is taken whole. -/
theorem prefix_scanExponent (he : e ∈ b.exponent) : e <+: (scanExponent (e ++ r)).1 := by
  obtain ⟨c, sign, ds, rfl, hletter, hds, hsign⟩ := Base.exponent_parts he
  rw [List.cons_append, List.append_assoc, scanExponent, if_pos hletter, hsign]
  dsimp only
  rw [List.prefix_cons_inj, List.prefix_append_right_inj]
  exact prefix_run hds

theorem prefix_taken_of_run (hw : ∀ c ∈ whole, (c == '_' || b.holdsDigit c) = true) :
    whole <+: taken b (whole ++ r) :=
  (prefix_run hw).trans (List.prefix_append ..)

theorem prefix_taken_of_exponent (hw : ∀ c ∈ whole, (c == '_' || b.holdsDigit c) = true)
    (he : e ∈ b.exponent) : whole ++ e <+: taken b (whole ++ (e ++ r)) := by
  obtain ⟨c, v, rfl, hpoint, hdigit⟩ := Base.exponent_head he
  have hrun : run b.holdsDigit (whole ++ (c :: v ++ r)) = (whole, c :: v ++ r) :=
    run_eq_iff.mpr ⟨hw, by simpa using hdigit⟩
  have hfraction : scanFraction b (c :: v ++ r) = ([], c :: v ++ r) := by
    simp [scanFraction, hpoint]
  rw [taken, hrun]
  dsimp only
  rw [hfraction]
  exact (List.prefix_append_right_inj _).mpr (prefix_scanExponent he)

theorem prefix_taken_of_point (hw : ∀ c ∈ whole, (c == '_' || b.holdsDigit c) = true)
    (hf : ∀ c ∈ f, (c == '_' || b.holdsDigit c) = true) (he : e = [] ∨ e ∈ b.exponent)
    (hpoint : (f ++ (e ++ r)).head? ≠ some '.') :
    whole ++ '.' :: (f ++ e) <+: taken b (whole ++ '.' :: (f ++ (e ++ r))) := by
  have hrun : run b.holdsDigit (whole ++ '.' :: (f ++ (e ++ r))) =
      (whole, '.' :: (f ++ (e ++ r))) :=
    run_eq_iff.mpr ⟨hw, by simp; cases b <;> decide⟩
  have hfraction : scanFraction b ('.' :: (f ++ (e ++ r))) =
      ('.' :: (run b.holdsDigit (f ++ (e ++ r))).1, (run b.holdsDigit (f ++ (e ++ r))).2) := by
    rw [scanFraction.eq_def]
    split
    · rename_i heq
      rw [(List.cons.inj heq).2] at hpoint
      exact absurd rfl hpoint
    · rename_i heq
      rw [(List.cons.inj heq).2]
    · rename_i hne
      exact absurd rfl (hne _)
  rw [taken, hrun]
  dsimp only
  rw [hfraction, List.prefix_append_right_inj, List.cons_append, List.prefix_cons_inj]
  rcases he with rfl | he
  · rw [List.append_nil, List.nil_append]
    exact (prefix_run hf).trans (List.prefix_append ..)
  · obtain ⟨c, v, rfl, -, hdigit⟩ := Base.exponent_head he
    have hdigits : run b.holdsDigit (f ++ (c :: v ++ r)) = (f, c :: v ++ r) :=
      run_eq_iff.mpr ⟨hf, by simpa using hdigit⟩
    rw [hdigits]
    exact (List.prefix_append_right_inj _).mpr (prefix_scanExponent he)

/-- Only a single character can announce something else with what follows it. -/
theorem announced_append (hne : w ≠ []) (r : List Char) :
    Base.announced (w ++ r) = Base.announced w ∨ ∃ c, w = [c] := by
  match w, hne with
  | [c], _ => exact .inr ⟨c, rfl⟩
  | c :: d :: w, _ => exact .inl (by rw [← announced_take, ← announced_take (c :: d :: w)]; rfl)

theorem scan_append_eq (hsame : Base.announced (w ++ r) = Base.announced w) :
    (scan (w ++ r)).1 = w.take (Base.announced w).leadLength ++
      taken (Base.announced w) (w.drop (Base.announced w).leadLength ++ r) := by
  have hlead := leadLength_announced_le w
  rw [scan_eq_taken, hsame, List.take_append_of_le_length hlead,
    List.drop_append_of_le_length hlead]

/-- Two points behind digits are left, even if the first could end the number. -/
theorem scan_two_points (hb : Base.announced w = b)
    (hsame : Base.announced (w ++ '.' :: r) = b) (hsplit : w.drop b.leadLength = whole ++ ['.'])
    (hwhole : ∀ c ∈ whole, (c == '_' || b.holdsDigit c) = true) :
    scan (w ++ '.' :: r) = (w.take b.leadLength ++ whole, '.' :: '.' :: r) := by
  have hlead : b.leadLength ≤ w.length := hb ▸ leadLength_announced_le w
  have hrun : run b.holdsDigit (whole ++ '.' :: '.' :: r) = (whole, '.' :: '.' :: r) :=
    run_eq_iff.mpr ⟨hwhole, by simp; cases b <;> decide⟩
  simp [scan, hsame, List.take_append_of_le_length hlead, List.drop_append_of_le_length hlead,
    hsplit, hrun, scanFraction, scanExponent, Base.hasExponent]

/--
A number in front of `r` is taken whole, unless it ends with a point and another one
follows. Then the two points are left.
-/
theorem prefix_scan (hw : w ∈ intLit + floatLit) (r : List Char) :
    w <+: (scan (w ++ r)).1 ∨
      ∃ v rest, w = v ++ ['.'] ∧ r = '.' :: rest ∧ scan (w ++ r) = (v, '.' :: r) := by
  obtain ⟨c, v, hcons, hstart⟩ := head_of_mem_imaginaryPart
    (show w ∈ imaginaryPart by rcases hw with hw | hw; exacts [.inl (.inr hw), .inr hw])
  rcases announced_append (w := w) (by simp [hcons]) r with hsame | ⟨d, hd⟩
  · have hscan := scan_append_eq hsame
    generalize hb : Base.announced w = b at hscan hsame
    have hcovered : w.drop b.leadLength <+: taken b (w.drop b.leadLength ++ r) →
        w <+: (scan (w ++ r)).1 := by
      intro h
      rw [hscan]
      nth_rewrite 1 [← List.take_append_drop b.leadLength w]
      exact (List.prefix_append_right_inj _).mpr h
    rcases hw with hw | hw
    · obtain ⟨-, hrun⟩ := Base.mem_whole_iff.mp (mem_intLit_iff.mp hw).1
      exact .inl (hcovered (prefix_taken_of_run (hb ▸ hrun.holds)))
    · obtain ⟨-, hw⟩ := hb ▸ mem_floatLit_iff.mp hw
      rcases hw with ⟨m, hm, e, he, hsplit⟩ | ⟨whole, hwhole, e, he, hsplit⟩
      · obtain ⟨whole, f, rfl, hwhole, hf, -⟩ := mem_pointedMantissa_iff.mp hm
        replace he := Base.mem_afterMantissa he
        replace hsplit : w.drop b.leadLength = whole ++ '.' :: (f ++ e) := by simpa using hsplit.symm
        by_cases hpoint : (f ++ (e ++ r)).head? = some '.'
        · refine .inr ?_
          -- neither digits nor an exponent start with a point
          obtain rfl : f = [] := by
            cases f with
            | nil => rfl
            | cons d f =>
              obtain rfl : d = '.' := by simpa using hpoint
              exact absurd (hf.holds '.' (by simp)) (by cases b <;> decide)
          obtain rfl : e = [] := by
            rcases he with rfl | he
            · rfl
            · obtain ⟨d, e, rfl, hd, -⟩ := Base.exponent_head he
              exact absurd (by simpa using hpoint) hd
          obtain ⟨rest, rfl⟩ := List.head?_eq_some_iff.mp hpoint
          have hwv : w = (w.take b.leadLength ++ whole) ++ ['.'] := by
            nth_rewrite 1 [← List.take_append_drop b.leadLength w]
            rw [hsplit, List.append_assoc]
            rfl
          exact ⟨w.take b.leadLength ++ whole, rest, hwv, rfl,
            scan_two_points hb hsame hsplit hwhole.holds⟩
        · refine .inl (hcovered ?_)
          rw [hsplit]
          simpa using prefix_taken_of_point hwhole.holds hf.holds he hpoint
      · obtain ⟨-, hrun⟩ := Base.mem_whole_iff.mp hwhole
        refine .inl (hcovered ?_)
        rw [← hsplit]
        rcases Base.mem_afterMantissa he with rfl | he
        · simpa using prefix_taken_of_run (r := r) hrun.holds
        · simpa using prefix_taken_of_exponent (r := r) hrun.holds he
  · -- one character is a digit, and a digit is always taken
    obtain ⟨rfl, rfl⟩ : c = d ∧ v = [] := by simpa [hd] using hcons.symm
    have hdigit : c.isDigit = true := by simpa using hstart
    refine .inl ?_
    rw [hd]
    have hne : (scan ([c] ++ r)).1 ≠ [] := scan_ne_nil (.inl hdigit)
    have happ := scan_append ([c] ++ r)
    cases hlit : (scan ([c] ++ r)).1 with
    | nil => exact absurd hlit hne
    | cons d lit =>
      rw [hlit] at happ
      obtain ⟨rfl, -⟩ := List.cons.inj happ
      exact ⟨lit, rfl⟩

end Number

/-! ## The first piece -/

/--
The texts that are a token on their own: keywords, names, marks, and the numbers, runes
and strings of the grammar.
-/
inductive TokenText : List Char → Prop where
  | keyword (k : Keyword) : TokenText k.text.toList
  | name {w : List Char} (hstart : w.head?.any Piece.isNameStart = true)
    (hparts : ∀ c ∈ w, Piece.isNamePart c = true) : TokenText w
  | mark (m : Mark) : TokenText m.text.toList
  | number {w : List Char} (hw : w ∈ Number.intLit + Number.floatLit) : TokenText w
  | imaginary {n : List Char}
    (hn : n ∈ Number.decimalDigits + Number.intLit + Number.floatLit) : TokenText (n ++ ['i'])
  | rune {w : List Char} (hw : IsRune w) : TokenText w
  | string {w : List Char} (hw : IsString w) : TokenText w
  | rawString {body : List Char} (hbody : '\x60' ∉ body) :
    TokenText ('\x60' :: (body ++ ['\x60']))

namespace Piece

variable {c : Char} {cs w r : List Char}

theorem prefix_first_of_name (hstart : w.head?.any isNameStart = true)
    (hparts : ∀ d ∈ w, isNamePart d = true) (h : c :: cs = w ++ r) : w <+: (first c cs).text := by
  have hc : isNameStart c = true := by
    cases w with
    | nil => simp at hstart
    | cons d w =>
      obtain ⟨rfl, -⟩ := List.cons.inj h
      simpa using hstart
  rw [first_of_isNameStart cs hc, word_eq, h, ofToken, List.takeWhile_append_of_pos hparts]
  exact List.prefix_append ..

/-- Every piece has a first character. -/
theorem singleton_prefix_first (c : Char) (cs : List Char) : [c] <+: (first c cs).text := by
  obtain ⟨rest, hrest, hfits⟩ := first_fits 0 c cs
  cases htext : (first c cs).text with
  | nil => exact absurd htext hfits.text_ne_nil
  | cons d text =>
    rw [htext] at hrest
    obtain ⟨rfl, -⟩ := List.cons.inj hrest
    exact ⟨text, rfl⟩

/-- The marks are looked through from the longest to the shortest. -/
theorem prefix_longest? (m : Mark) (r : List Char) :
    ∃ longer, Mark.longest? (m.text.toList ++ r) = some longer ∧
      m.text.toList <+: longer.text.toList := by
  have hsorted : Mark.all.Pairwise fun a b => b.text.toList.length ≤ a.text.toList.length := by
    decide +kernel
  have hm : m.text.toList.isPrefixOf (m.text.toList ++ r) = true :=
    List.isPrefixOf_iff_prefix.mpr (List.prefix_append ..)
  obtain ⟨longer, hfind⟩ : ∃ longer, Mark.longest? (m.text.toList ++ r) = some longer :=
    Option.isSome_iff_exists.mp (List.find?_isSome.mpr ⟨m, mem_markAll m, hm⟩)
  obtain ⟨hlonger, before, after, hall, hbefore⟩ := List.find?_eq_some_iff_append.mp hfind
  refine ⟨longer, hfind, ?_⟩
  have hlength : m.text.toList.length ≤ longer.text.toList.length := by
    have hmem := mem_markAll m
    rw [hall, List.mem_append, List.mem_cons] at hmem
    rcases hmem with hmem | rfl | hmem
    · have := hbefore m hmem
      simp [hm] at this
    · exact Nat.le_refl _
    · rw [hall, List.pairwise_append, List.pairwise_cons] at hsorted
      exact hsorted.2.1.1 m hmem
  exact List.prefix_of_prefix_length_le (List.prefix_append ..)
    (List.isPrefixOf_iff_prefix.mp hlonger) hlength

theorem prefix_first_of_mark (m : Mark) (h : c :: cs = m.text.toList ++ r) :
    m.text.toList <+: (first c cs).text := by
  have hstart := startsMark_head m
  have htail := markTail_plain m
  match htext : m.text.toList with
  | [] => exact List.nil_prefix
  | [d] =>
    rw [htext] at h
    obtain ⟨rfl, -⟩ := List.cons.inj h
    exact singleton_prefix_first c cs
  | d :: e :: ds =>
    -- the second character is in the mark, so this is no number and no comment
    obtain ⟨longer, hlongest, hcovered⟩ := prefix_longest? m r
    rw [← h] at hlongest
    rw [htext] at h hstart htail hcovered
    rw [List.cons_append] at h
    obtain ⟨rfl, rfl⟩ := List.cons.inj h
    have he : e.isDigit = false ∧ e ≠ '/' ∧ e ≠ '*' := by
      simp only [List.tail_cons, List.all_cons, Bool.and_eq_true] at htail
      simpa [and_assoc] using htail.1
    have hfirst : first c (e :: ds ++ r) = mark c (e :: ds ++ r) :=
      first_of_startsMark (by simpa using hstart) (fun _ d hd => by simp_all)
        (fun _ d hd => by simp_all)
    rw [hfirst, mark, hlongest]
    exact hcovered

theorem prefix_first_of_imaginary {n : List Char}
    (hn : n ∈ Number.decimalDigits + Number.intLit + Number.floatLit)
    (h : c :: cs = n ++ ['i'] ++ r) : n ++ ['i'] <+: (first c cs).text := by
  have hpart : n ∈ Number.imaginaryPart := by
    rcases hn with (hn | hn) | hn
    · exact .inl (.inl (Number.decimalDigits_le_looseDigits hn))
    · exact .inl (.inr hn)
    · exact .inr hn
  obtain ⟨d, text, rest, -, hcs, hfirst, -⟩ := cut_eq_cons (show cut 0 (n ++ 'i' :: r) = _ from cut_imaginary hpart)
  rw [List.append_assoc] at h
  obtain ⟨rfl, rfl⟩ := List.cons.inj (h.trans hcs)
  rw [hfirst]
  exact List.prefix_rfl

/-- A quoted text ends at the first quote behind its elements. -/
theorem quoted_text_eq (judge : Char → List Char → String → Token) {quote : Char}
    {body : List Char} (h : Quoted.items quote cs = (body, quote :: r)) :
    (quoted judge quote cs).text = quote :: (body ++ [quote]) := by
  rw [quoted, h]
  simp [ofToken]

theorem prefix_first_of_string (hw : IsString w) (h : c :: cs = w ++ r) :
    w <+: (first c cs).text := by
  obtain ⟨elements, helements, rfl⟩ := hw
  rw [List.cons_append, List.append_assoc] at h
  obtain ⟨rfl, rfl⟩ := List.cons.inj h
  have hitems : Quoted.items '\x22' (elements.flatten ++ '\x22' :: r) =
      (elements.flatten, '\x22' :: r) := (Quoted.items_elements (.inl rfl) helements).1
  have htext := quoted_text_eq Quoted.stringToken hitems
  exact htext ▸ List.prefix_rfl

theorem prefix_first_of_rune (hw : IsRune w) (h : c :: cs = w ++ r) : w <+: (first c cs).text := by
  obtain ⟨e, he, rfl⟩ := hw
  rw [List.cons_append, List.append_assoc] at h
  obtain ⟨rfl, rfl⟩ := List.cons.inj h
  have hitems : Quoted.items '\x27' (e ++ (['\x27'] ++ r)) = (e, '\x27' :: r) := by
    rw [he.items_append (.inr rfl), List.singleton_append, Quoted.items_quote (.inr rfl),
      List.append_nil]
  -- an element is not empty and does not start with the quote, else it would be no item
  have hhead : (e ++ (['\x27'] ++ r)).head? ≠ some '\x27' := by
    intro hhead
    obtain ⟨rest, hrest⟩ := List.head?_eq_some_iff.mp hhead
    rw [hrest, Quoted.items_quote (.inr rfl)] at hitems
    obtain rfl : [] = e := (Prod.mk.inj hitems).1
    cases he with
    | escape h => cases h
  have htext := quoted_text_eq Quoted.runeToken hitems
  have hfirst : first '\x27' (e ++ (['\x27'] ++ r)) = quoted Quoted.runeToken '\x27'
      (e ++ (['\x27'] ++ r)) := if_neg hhead
  rw [hfirst, htext]

theorem prefix_first_of_rawString {body : List Char} (hbody : '\x60' ∉ body)
    (h : c :: cs = '\x60' :: (body ++ ['\x60']) ++ r) :
    '\x60' :: (body ++ ['\x60']) <+: (first c cs).text := by
  rw [List.cons_append, List.append_assoc, List.singleton_append] at h
  obtain ⟨rfl, rfl⟩ := List.cons.inj h
  have hbody' : (body ++ '\x60' :: r).takeWhile (· ≠ '\x60') = body :=
    takeWhile_eq_iff.mpr ⟨fun d hd => decide_eq_true fun hq => hbody (hq ▸ hd), by simp⟩
  have htext : (rawString (body ++ '\x60' :: r)).text = '\x60' :: (body ++ ['\x60']) := by
    rw [rawString]
    dsimp only
    rw [hbody', if_pos (by simp)]
    rfl
  exact htext ▸ List.prefix_rfl

/-- A number is taken whole, unless it ends with the first of two points. -/
theorem prefix_first_of_number (hw : w ∈ Number.intLit + Number.floatLit) (h : c :: cs = w ++ r) :
    w <+: (first c cs).text ∨
      ∃ v rest, w = v ++ ['.'] ∧ r = '.' :: rest ∧ first c cs = numberPiece false v := by
  obtain ⟨d, v, hcons, hstart⟩ := Number.head_of_mem_imaginaryPart
    (show w ∈ Number.imaginaryPart by rcases hw with hw | hw; exacts [.inl (.inr hw), .inr hw])
  have hfirst : first c cs = number (w ++ r) := by
    rw [← h]
    rw [hcons] at h
    obtain ⟨rfl, rfl⟩ := List.cons.inj h
    refine first_number (hstart.imp_right fun ⟨hc, hdigit⟩ => ⟨hc, ?_⟩)
    cases v with
    | nil => simp at hdigit
    | cons e v => exact hdigit
  rcases Number.prefix_scan hw r with hcovered | ⟨v, rest, hw, rfl, hscan⟩
  · refine .inl (hcovered.trans ?_)
    rcases hscan : Number.scan (w ++ r) with ⟨lit, rest⟩
    rw [hfirst, number_eq hscan, numberPiece_text]
    cases rest.head? == some 'i' with
    | true => exact List.prefix_append ..
    | false => exact List.prefix_rfl
  · refine .inr ⟨v, rest, hw, rfl, ?_⟩
    rw [hfirst, number_eq hscan]
    rfl

/-- **The first piece is as long as any token** that the source starts with. -/
theorem prefix_first (hw : TokenText w) (h : c :: cs = w ++ r) :
    w <+: (first c cs).text ∨
      ∃ v rest, w = v ++ ['.'] ∧ r = '.' :: rest ∧ first c cs = numberPiece false v := by
  cases hw with
  | keyword k => exact .inl (prefix_first_of_name (Token.keyword_head k)
      (List.all_eq_true.mp (keyword_parts k)) h)
  | name hstart hparts => exact .inl (prefix_first_of_name hstart hparts h)
  | mark m => exact .inl (prefix_first_of_mark m h)
  | number hw => exact prefix_first_of_number hw h
  | imaginary hn => exact .inl (prefix_first_of_imaginary hn h)
  | rune hw => exact .inl (prefix_first_of_rune hw h)
  | string hw => exact .inl (prefix_first_of_string hw h)
  | rawString hbody => exact .inl (prefix_first_of_rawString hbody h)

end Piece

/-! ## All tokens -/

/-- Every token of a source is the first piece of what is left there. -/
theorem exists_first_of_mem {armed : Bool} {offset : Nat} {cs : List Char} {l : Lexeme}
    (hl : l ∈ Lexeme.ofPieces armed offset (Piece.cut 0 cs)) (hreal : l.isLineEnd = false) :
    ∃ before c rest, cs = before ++ c :: rest ∧ l.start = offset + byteSize before ∧
      l.stop = l.start + byteSize (Piece.first c rest).text ∧
      (Piece.first c rest).token? l.start = some l.token := by
  generalize hps : Piece.cut 0 cs = ps at hl
  induction ps generalizing armed offset cs with
  | nil =>
    rw [Lexeme.ofPieces] at hl
    split at hl
    · rw [List.mem_singleton.mp hl, isLineEnd_lineEnd] at hreal
      exact absurd hreal (by decide)
    · exact absurd hl List.not_mem_nil
  | cons p ps ih =>
    obtain ⟨c, text, rest, htext, rfl, hp, hrest⟩ := Piece.cut_eq_cons hps
    -- a token behind the first piece is found again in the rest
    have hlater : ∀ {armed}, l ∈ Lexeme.ofPieces armed (offset + byteSize p.text) ps →
        ∃ before d behind, c :: (text ++ rest) = before ++ d :: behind ∧
          l.start = offset + byteSize before ∧
          l.stop = l.start + byteSize (Piece.first d behind).text ∧
          (Piece.first d behind).token? l.start = some l.token := by
      intro armed hl
      obtain ⟨before, d, behind, rfl, hstart, hstop, htoken⟩ := ih hrest hl
      refine ⟨p.text ++ before, d, behind, by rw [htext]; simp, ?_, hstop, htoken⟩
      rw [hstart, byteSize_append]
      omega
    cases htoken : p.token? offset with
    | some t =>
      rw [ofPieces_token _ htoken] at hl
      rcases List.mem_cons.mp hl with rfl | hl
      · exact ⟨[], c, text ++ rest, rfl, rfl, by rw [hp], by rw [hp]; exact htoken⟩
      · exact hlater hl
    | none =>
      rw [ofPieces_filler _ htoken] at hl
      rcases List.mem_append.mp hl with hl | hl
      · rw [fillerLineEnds] at hl
        split at hl
        · obtain ⟨place, -, rfl⟩ := List.mem_map.mp hl
          rw [isLineEnd_lineEnd] at hreal
          exact absurd hreal (by decide)
        · exact absurd hl List.not_mem_nil
      · exact hlater hl

/-- A number without an `i` that is no flaw is an integer or a float. -/
theorem numberPiece_legal {v : List Char} {offset : Nat} {t : Token}
    (h : (Piece.numberPiece false v).token? offset = some t) (hlegal : ∀ flaw, t ≠ .illegal flaw) :
    ∃ kind, t = .literal kind (String.ofList v) ∧ kind ∈ [LiteralKind.int, LiteralKind.float] := by
  rw [Piece.numberPiece, if_neg (by decide)] at h
  split at h
  · exact ⟨.int, (Option.some.inj h).symm, by simp⟩
  · exact ⟨.float, (Option.some.inj h).symm, by simp⟩
  · exact absurd (Option.some.inj h).symm (hlegal _)

/--
**Longest match.** Where a token starts that is no flaw, no longer stretch of the source
is a token on its own, except that a number may be followed by two points and could end
with the first of them.
-/
theorem tokenize_longest (src : String) {l : Lexeme} (hl : l ∈ tokenize src)
    (hreal : l.isLineEnd = false) (hlegal : ∀ flaw, l.token ≠ .illegal flaw) {stop : Nat}
    (hstop : l.stop < stop) {w : List Char} (hslice : slice? src.toList l.start stop = some w)
    (hw : TokenText w) :
    ∃ kind text rest, l.token = .literal kind text ∧ kind ∈ [LiteralKind.int, .float] ∧
      w = text.toList ++ ['.'] ∧ dropBytes? l.stop src.toList = some ('.' :: '.' :: rest) := by
  obtain ⟨before, c, cs, hsrc, hstart, hend, htoken⟩ := exists_first_of_mem hl hreal
  rw [Nat.zero_add] at hstart
  rw [hsrc, hstart] at hslice
  obtain ⟨r, hr, hsize⟩ := slice?_append_eq_some hslice
  rcases Piece.prefix_first hw hr with ⟨more, hmore⟩ | ⟨v, rest, rfl, rfl, hnumber⟩
  · -- the first piece covers the stretch, which then is not the longer one
    rw [← hmore, byteSize_append] at hend
    omega
  · rw [hnumber] at htoken hend
    obtain ⟨kind, hkind, hmem⟩ := numberPiece_legal htoken hlegal
    refine ⟨kind, String.ofList v, rest, hkind, hmem, by rw [String.toList_ofList], ?_⟩
    rw [hend, hstart, Piece.numberPiece_text, if_neg (by decide), ← byteSize_append, hsrc, hr,
      List.append_assoc, List.singleton_append, ← List.append_assoc, dropBytes?_byteSize]

theorem tokenize_longest_points :
    ∃ kind text rest, Token.literal .int "1" = .literal kind text ∧
      kind ∈ [LiteralKind.int, .float] ∧ ['1', '.'] = text.toList ++ ['.'] ∧
      dropBytes? 1 "1..".toList = some ('.' :: '.' :: rest) :=
  tokenize_longest "1.." (l := ⟨0, 1, .literal .int "1"⟩) (by decide +kernel) (by decide)
    (fun _ => by simp) (show 1 < 2 by decide) (by decide)
    (.number (.inr ((Number.classify_eq_float_iff_mem _).mp (by decide))))

end GoGloss
