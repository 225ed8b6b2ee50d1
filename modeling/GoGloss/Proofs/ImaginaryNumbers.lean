import GoGloss.Proofs.NumberGrammar

/-!
# Imaginary numbers

An imaginary number is a number with an `i` behind it. In the grammar the number may
also be decimal digits with leading zeros, which on their own would be octal:

    imaginary_lit = ( decimal_digits | int_lit | float_lit ) "i" .

Every number of this form is read as one token. The exemption for leading zeros goes
further than the grammar, though: any run of decimal digits and underscores that
starts with a digit passes it, `1__0` and `1_` among them, which are no numbers without
the `i`. The main statement says that there is no other way to get an imaginary number.
-/

namespace GoGloss

open Character
open scoped Computability

namespace Number

/-- Decimal digits, with underscores anywhere behind the first. -/
def looseDigits : Language Char :=
  one Char.isDigit * (one fun c => c == '_' || c.isDigit)∗

/-- What may stand in front of the `i`. -/
def imaginaryPart : Language Char :=
  looseDigits + intLit + floatLit

theorem mem_kstar_one_iff {p : Char → Bool} {w : List Char} :
    w ∈ (one p)∗ ↔ ∀ c ∈ w, p c = true := by
  rw [← Language.one_add_self_mul_kstar_eq_kstar, Language.mem_add, Language.mem_one]
  induction w with
  | nil => simp
  | cons c w ih =>
      rw [← Language.one_add_self_mul_kstar_eq_kstar, cons_mem_one_mul, Language.mem_add,
        Language.mem_one, ih]
      simp

theorem cons_mem_looseDigits {c : Char} {w : List Char} :
    c :: w ∈ looseDigits ↔ c.isDigit = true ∧ ∀ d ∈ w, (d == '_' || d.isDigit) = true := by
  rw [looseDigits, cons_mem_one_mul, mem_kstar_one_iff]

theorem nil_notMem_looseDigits : [] ∉ looseDigits :=
  nil_notMem_one_mul

/-- The digits of the grammar are among them. -/
theorem decimalDigits_le_looseDigits : decimalDigits ≤ looseDigits := by
  intro w hw
  cases w with
  | nil => exact absurd hw nil_notMem_digits
  | cons c w =>
      have hrun := (Base.mem_digits_iff (b := .decimal)).mp hw
      exact cons_mem_looseDigits.mpr ⟨(cons_mem_digits.mp hw).1, fun d hd => hrun.2.1 d (by simp [hd])⟩

/-- What passes as the front of an imaginary number, if it starts like a number. -/
theorem mayBeImaginary_iff {lit : List Char} (hstart : lit.head?.any (· ≠ '_') = true) :
    mayBeImaginary lit = true ↔ lit ∈ imaginaryPart := by
  have hloose : lit.all (fun c => c.isDigit || c == '_') = true ↔ lit ∈ looseDigits := by
    cases lit with
    | nil => simp at hstart
    | cons c w =>
        have hc : c ≠ '_' := by simpa using hstart
        rw [cons_mem_looseDigits, List.all_eq_true, List.forall_mem_cons]
        simp [hc, or_comm]
  have hclassify : (classify lit).isSome = true ↔ lit ∈ intLit ∨ lit ∈ floatLit := by
    rw [← classify_eq_int_iff_mem, ← classify_eq_float_iff_mem]
    rcases h : classify lit with _ | _ | _ <;> simp
  rw [mayBeImaginary, Bool.or_eq_true, hclassify, hloose, imaginaryPart, Language.mem_add,
    Language.mem_add]
  tauto

/-! ## Where the number ends -/

section

variable {b : Base} {w whole fraction exponent rest : List Char}

theorem holdsDigit_i (b : Base) : (('i' : Char) == '_' || b.holdsDigit 'i') = false := by
  cases b <;> decide

theorem run_before_i {digit : Char → Bool} (hdigit : digit 'i' = false)
    (h : ∀ c ∈ w, (c == '_' || digit c) = true) :
    run digit (w ++ 'i' :: rest) = (w, 'i' :: rest) := by
  refine run_eq_iff.mpr ⟨h, fun c hc => ?_⟩
  obtain rfl : 'i' = c := by simpa using hc
  simp [hdigit]

/-- An exponent is a letter, a sign or none, and digits; the sign is found in front of them. -/
theorem Base.exponent_parts (h : exponent ∈ b.exponent) :
    ∃ c sign ds, exponent = c :: (sign ++ ds) ∧
      (Base.decimal.hasExponent c || Base.hexadecimal.hasExponent c) = true ∧
      (∀ d ∈ ds, (d == '_' || d.isDigit) = true) ∧
      ∀ rest, scanSign (sign ++ (ds ++ rest)) = (sign, ds ++ rest) := by
  cases exponent with
  | nil => exact absurd h nil_notMem_one_mul
  | cons c w =>
      obtain ⟨hletter, hw⟩ := cons_mem_one_mul.mp h
      have hany : (Base.decimal.hasExponent c || Base.hexadecimal.hasExponent c) = true := by
        cases b with
        | binary | octal => simp [Base.hasExponent] at hletter
        | decimal => rw [hletter, Bool.true_or]
        | hexadecimal => rw [hletter, Bool.or_true]
      obtain ⟨sign, hsign, ds, hds, rfl⟩ := Language.mem_mul.mp hw
      obtain ⟨hne, hrun⟩ := (Base.mem_digits_iff (b := .decimal)).mp hds
      refine ⟨c, sign, ds, rfl, hany, hrun.1, fun rest => ?_⟩
      -- the digits start with a digit, so there is no sign but this one
      rcases mem_optional.mp hsign with rfl | ⟨d, rfl, hd⟩
      · cases ds with
        | nil => exact absurd rfl hne
        | cons d ds =>
            have hd : d.isDigit = true := (cons_mem_digits.mp hds).1
            rw [List.nil_append, List.cons_append, scanSign.eq_def]
            split
            · simp_all
            · simp_all
            · rfl
      · simp only [Bool.or_eq_true, beq_iff_eq] at hd
        rcases hd with rfl | rfl <;> rfl

/-- An exponent that is complete ends in front of the `i`. -/
theorem scanExponent_before_i (h : exponent = [] ∨ exponent ∈ b.exponent) :
    scanExponent (exponent ++ 'i' :: rest) = (exponent, 'i' :: rest) := by
  rcases h with rfl | h
  · rw [List.nil_append, scanExponent, if_neg (by decide)]
  · obtain ⟨c, sign, ds, rfl, hletter, hds, hsign⟩ := Base.exponent_parts h
    rw [List.cons_append, List.append_assoc, scanExponent, if_pos hletter, hsign]
    dsimp only
    rw [run_before_i (by decide) hds]

theorem announced_before_i (hw : w ≠ []) :
    Base.announced (w ++ 'i' :: rest) = Base.announced w := by
  match w, hw with
  | c :: d :: w, _ => rw [← announced_take, ← announced_take (c :: d :: w)]; rfl
  | [c], _ =>
      by_cases hc : c = '0'
      · subst hc; rfl
      · simp [Base.announced, hc]

/-- The parts of a number, one behind the other, are found again in front of the `i`. -/
theorem scan_before_i (hne : w ≠ []) (hb : Base.announced w = b)
    (hsplit : w.drop b.leadLength = whole ++ (fraction ++ exponent))
    (hwhole : ∀ c ∈ whole, (c == '_' || b.holdsDigit c) = true)
    (hbehind : ∀ c ∈ (fraction ++ (exponent ++ 'i' :: rest)).head?,
      (c == '_' || b.holdsDigit c) = false)
    (hfraction : scanFraction b (fraction ++ (exponent ++ 'i' :: rest)) =
      (fraction, exponent ++ 'i' :: rest))
    (hexponent : exponent = [] ∨ exponent ∈ b.exponent) :
    scan (w ++ 'i' :: rest) = (w, 'i' :: rest) := by
  have hlead : b.leadLength ≤ w.length := hb ▸ leadLength_announced_le w
  have hdrop : (w ++ 'i' :: rest).drop b.leadLength =
      whole ++ (fraction ++ (exponent ++ 'i' :: rest)) := by
    rw [List.drop_append_of_le_length hlead, hsplit]
    simp
  have hrun := run_eq_iff.mpr ⟨hwhole, hbehind⟩
  rw [scan]
  simp only [announced_before_i hne, hb, hdrop, hrun, hfraction, scanExponent_before_i hexponent]
  rw [List.take_append_of_le_length hlead, List.append_assoc, List.append_assoc, ← hsplit,
    List.take_append_drop]

/-- A number without a point and an exponent. -/
theorem scan_run_before_i (hne : w ≠ []) (hb : Base.announced w = b)
    (h : ∀ c ∈ w.drop b.leadLength, (c == '_' || b.holdsDigit c) = true) :
    scan (w ++ 'i' :: rest) = (w, 'i' :: rest) := by
  have hsplit : w.drop b.leadLength = w.drop b.leadLength ++ ([] ++ []) := by simp
  refine scan_before_i hne hb hsplit h ?_ rfl (.inl rfl)
  intro c hc
  obtain rfl : 'i' = c := by simpa using hc
  exact holdsDigit_i b

/-- Neither an exponent nor the `i` can be taken for something in front of them. -/
theorem head_before_i (rest : List Char) (h : exponent = [] ∨ exponent ∈ b.exponent) :
    ∀ c ∈ (exponent ++ 'i' :: rest).head?, c ≠ '.' ∧ (c == '_' || b.holdsDigit c) = false := by
  intro c hc
  rcases h with rfl | h
  · obtain rfl : 'i' = c := by simpa using hc
    exact ⟨by decide, holdsDigit_i b⟩
  · cases exponent with
    | nil => exact absurd h nil_notMem_one_mul
    | cons d w =>
        obtain rfl : d = c := by simpa using hc
        have hne := Base.ne_of_hasExponent (cons_mem_one_mul.mp h).1
        exact ⟨hne.2.1, by simp [hne.1, hne.2.2.1]⟩

theorem Base.mem_afterMantissa {pointed : Bool} (h : w ∈ b.afterMantissa pointed) :
    w = [] ∨ w ∈ b.exponent := by
  rw [Base.afterMantissa] at h
  split at h
  · exact mem_optional.mp h
  · exact .inr h

/-- Among the digits of a base, all stay with the number. -/
theorem Base.IsRun.holds {a : Bool} (h : b.IsRun a w) :
    ∀ c ∈ w, (c == '_' || b.holdsDigit c) = true := by
  intro c hc
  rcases Bool.or_eq_true _ _ |>.mp (h.1 c hc) with hc | hc
  · rw [hc, Bool.true_or]
  · rw [Base.holdsDigit_of_hasDigit hc, Bool.or_true]

theorem scanFraction_before_i {f : List Char} (hf : b.IsRun false f)
    (hexponent : exponent = [] ∨ exponent ∈ b.exponent) :
    scanFraction b (('.' :: f) ++ (exponent ++ 'i' :: rest)) =
      ('.' :: f, exponent ++ 'i' :: rest) := by
  have hhead := head_before_i rest hexponent
  have hrun : run b.holdsDigit (f ++ (exponent ++ 'i' :: rest)) = (f, exponent ++ 'i' :: rest) :=
    run_eq_iff.mpr ⟨hf.holds, fun c hc => (hhead c hc).2⟩
  have hnext : (f ++ (exponent ++ 'i' :: rest)).head? ≠ some '.' := by
    cases f with
    | nil => exact fun h => (hhead '.' h).1 rfl
    | cons c f =>
        intro h
        obtain rfl : c = '.' := by simpa using h
        have hdot := hf.holds '.' (by simp)
        exact absurd hdot (by cases b <;> decide)
  rw [List.cons_append, scanFraction.eq_def]
  split
  · rename_i heq
    rw [(List.cons.inj heq).2] at hnext
    simp at hnext
  · rename_i heq
    obtain ⟨-, rfl⟩ := List.cons.inj heq
    rw [hrun]
  · rename_i hother
    exact absurd rfl (hother _)

/-- **A number that may be imaginary ends in front of the `i`.** -/
theorem scan_imaginary (hw : w ∈ imaginaryPart) (rest : List Char) :
    scan (w ++ 'i' :: rest) = (w, 'i' :: rest) := by
  rcases hw with (hw | hw) | hw
  · -- digits that announce nothing
    cases w with
    | nil => exact absurd hw nil_notMem_looseDigits
    | cons c w =>
        obtain ⟨hc, hdigits⟩ := cons_mem_looseDigits.mp hw
        have hall : ∀ d ∈ c :: w, (d == '_' || d.isDigit) = true := by
          refine List.forall_mem_cons.mpr ⟨?_, hdigits⟩
          rw [hc, Bool.or_true]
        have hb : Base.announced (c :: w) = .decimal := announced_eq_decimal fun d hd b => by
          rcases Bool.or_eq_true _ _ |>.mp (hall d hd) with hd | hd
          · obtain rfl : d = '_' := by simpa using hd
            cases b <;> decide
          · exact isDigit_hasLetter hd b
        exact scan_run_before_i (by simp) hb hall
  · obtain ⟨hne, hrun⟩ := Base.mem_whole_iff.mp (mem_intLit_iff.mp hw).1
    exact scan_run_before_i (by rintro rfl; simp at hne) rfl hrun.holds
  · generalize hb : Base.announced w = b
    obtain ⟨-, hw⟩ := hb ▸ mem_floatLit_iff.mp hw
    rcases hw with ⟨m, hm, exponent, hexponent, hsplit⟩ | ⟨whole, hwhole, exponent, hexponent, hsplit⟩
    · obtain ⟨whole, f, rfl, hwhole, hf, -⟩ := mem_pointedMantissa_iff.mp hm
      replace hexponent := Base.mem_afterMantissa hexponent
      have hne : w ≠ [] := by rintro rfl; simp at hsplit
      have hparts : w.drop b.leadLength = whole ++ ('.' :: f ++ exponent) := by
        simpa using hsplit.symm
      refine scan_before_i hne hb hparts hwhole.holds ?_
        (scanFraction_before_i hf hexponent) hexponent
      · intro c hc
        obtain rfl : '.' = c := by simpa using hc
        cases b <;> decide
    · obtain ⟨hfull, hrun⟩ := Base.mem_whole_iff.mp hwhole
      replace hexponent := Base.mem_afterMantissa hexponent
      have hne : w ≠ [] := by rintro rfl; simp_all
      have hhead := head_before_i rest hexponent
      have hparts : w.drop b.leadLength = whole ++ ([] ++ exponent) := hsplit.symm
      refine scan_before_i hne hb hparts hrun.holds (fun c hc => (hhead c hc).2) ?_ hexponent
      rw [List.nil_append, scanFraction.eq_def]
      split
      · rename_i heq
        exact absurd rfl (hhead '.' (by rw [heq]; rfl)).1
      · rename_i heq
        exact absurd rfl (hhead '.' (by rw [heq]; rfl)).1
      · rfl

/-- A number starts with a digit, or with a point and a digit. -/
theorem head_of_mem_imaginaryPart (hw : w ∈ imaginaryPart) :
    ∃ c v, w = c :: v ∧ (c.isDigit = true ∨ c = '.' ∧ v.head?.any Char.isDigit = true) := by
  have hone : ∀ {p : Char → Bool} {l : Language Char}, (∀ c, p c = true → c.isDigit = true) →
      w ∈ one p * l → ∃ c v, w = c :: v ∧ c.isDigit = true := by
    intro p l hp h
    cases w with
    | nil => exact absurd h nil_notMem_one_mul
    | cons c v => exact ⟨c, v, rfl, hp c (cons_mem_one_mul.mp h).1⟩
  have hdigits : ∀ {l : Language Char}, w ∈ decimalDigits * l →
      ∃ c v, w = c :: v ∧ c.isDigit = true := by
    intro l h
    rw [decimalDigits, digits, mul_assoc] at h
    exact hone (fun c hc => hc) h
  have hzero : ∀ {l : Language Char}, w ∈ zero * l → ∃ c v, w = c :: v ∧ c.isDigit = true :=
    hone fun c hc => by rw [beq_iff_eq.mp hc]; rfl
  have hstart : (∃ c v, w = c :: v ∧ c.isDigit = true) ∨
      w ∈ point * (decimalDigits * optional decimalExponent) := by
    rcases hw with (hw | (((hw | hw) | hw) | hw) | hw) | (((hw | hw) | hw) | hw)
    · exact .inl (hone (fun c hc => hc) hw)
    · exact .inl (hzero (l := 1) (by rwa [mul_one]))
    · exact .inl (hone (fun c hc => (Bool.and_eq_true _ _ |>.mp hc).1) hw)
    · exact .inl (hzero hw)
    · exact .inl (hzero hw)
    · exact .inl (hzero hw)
    · exact .inl (hdigits hw)
    · exact .inl (hdigits hw)
    · exact .inr hw
    · exact .inl (hzero hw)
  rcases hstart with ⟨c, v, rfl, hc⟩ | hw
  · exact ⟨c, v, rfl, .inl hc⟩
  · cases w with
    | nil => exact absurd hw nil_notMem_one_mul
    | cons c v =>
        obtain ⟨hc, hv⟩ := cons_mem_one_mul.mp hw
        refine ⟨c, v, rfl, .inr ⟨beq_iff_eq.mp hc, ?_⟩⟩
        rw [decimalDigits, digits, mul_assoc] at hv
        cases v with
        | nil => exact absurd hv nil_notMem_one_mul
        | cons d v => exact (cons_mem_one_mul.mp hv).1

end

end Number

/-! ## The token -/

namespace Piece

/-- What starts like a number is read as one. -/
theorem first_number {c : Char} {cs : List Char}
    (h : c.isDigit = true ∨ c = '.' ∧ cs.head?.any Char.isDigit = true) :
    first c cs = number (c :: cs) := by
  rcases h with h | ⟨rfl, h⟩
  · have hne : ∀ d : Char, d.isDigit = false → c ≠ d := by
      rintro d hd rfl
      rw [h] at hd
      exact absurd hd (by decide)
    have hblank : isBlank c = false := by
      simp [isBlank, hne ' ' (by decide), hne '\t' (by decide), hne '\x0c' (by decide)]
    have hbreak : isLineBreak c = false := by
      simp [isLineBreak, hne '\n' (by decide), hne '\r' (by decide)]
    simp [first, hblank, hbreak, hne '\uFEFF' (by decide), isNameStart_of_isDigit h, h]
  · have hpoint : isNameStart '.' = false := by decide
    simp [first, isBlank, isLineBreak, hpoint, h]

/-- A number that may be imaginary is read with its `i` as one piece. -/
theorem cut_imaginary {n rest : List Char} (hn : n ∈ Number.imaginaryPart) :
    cut 0 (n ++ 'i' :: rest) =
      ofToken (.literal .imaginary (String.ofList (n ++ ['i']))) (n ++ ['i']) :: cut 0 rest := by
  obtain ⟨c, v, rfl, hstart⟩ := Number.head_of_mem_imaginaryPart hn
  have hscan := Number.scan_imaginary hn rest
  have hmay : Number.mayBeImaginary (c :: v) = true := by
    refine (Number.mayBeImaginary_iff ?_).mpr hn
    rcases hstart with hc | ⟨rfl, -⟩
    · refine decide_eq_true ?_
      rintro rfl
      exact absurd hc (by decide)
    · rfl
  have hnumber : number (c :: v ++ 'i' :: rest) =
      ofToken (.literal .imaginary (String.ofList (c :: v ++ ['i']))) (c :: v ++ ['i']) := by
    rw [number_eq hscan, numberPiece, if_pos (by simp), if_pos hmay]
  have hfirst : first c (v ++ 'i' :: rest) =
      ofToken (.literal .imaginary (String.ofList (c :: v ++ ['i']))) (c :: v ++ ['i']) := by
    rw [← hnumber]
    refine first_number ?_
    rcases hstart with hc | ⟨hc, hnext⟩
    · exact .inl hc
    · cases v with
      | nil => simp at hnext
      | cons d v => exact .inr ⟨hc, hnext⟩
  rw [List.cons_append, ← hfirst]
  refine cut_cons ?_ ?_
  · rw [hfirst]
    simp [ofToken]
  · rw [hfirst]
    simp [ofToken]

/-- Quoted text is no imaginary number. -/
theorem quoted_ne_imaginary {judge : Char → List Char → String → Token}
    (hjudge : ∀ quote body text, judge quote body text ≠ .literal .imaginary text)
    (hj : Quoted.Judges judge) (quote : Char) (cs : List Char) (text : String) :
    (quoted judge quote cs).kind ≠ .token (.literal .imaginary text) := by
  rw [quoted]
  dsimp only
  split
  · rw [ofToken, Ne, PieceKind.token.injEq]
    intro h
    generalize Quoted.items quote cs = items at h
    generalize hwhole : String.ofList (quote :: (items.1 ++ [quote])) = whole at h
    rcases hj quote items.1 whole with ⟨kind, hkind⟩ | ⟨flaw, hflaw⟩
    · rw [hkind] at h
      obtain ⟨rfl, -⟩ := Token.literal.inj h
      exact hjudge _ _ _ hkind
    · rw [hflaw] at h
      exact absurd h (by simp)
  · simp [ofFlaw, ofToken]

/-- No other piece is an imaginary number. -/
theorem imaginaryPart_of_first {c : Char} {cs : List Char} {text : String}
    (h : (first c cs).kind = .token (.literal .imaginary text)) :
    ∃ n ∈ Number.imaginaryPart, text = String.ofList (n ++ ['i']) := by
  have hpromise := lead_promises c cs.head?
  rw [first_eq] at h
  generalize lead c cs.head? = start at h hpromise
  cases start with
  | blank | lineBreak | byteOrderMark | lineComment => simp [Lead.piece, lineComment] at h
  | word =>
      rw [Lead.piece, word_eq, wordToken] at h
      repeat' split at h
      all_goals simp [ofToken] at h
  | number =>
      rcases hscan : Number.scan (c :: cs) with ⟨lit, rest⟩
      have hne := Number.scan_ne_nil hpromise
      have happ := Number.scan_append (c :: cs)
      rw [hscan] at hne happ
      rw [Lead.piece, number_eq hscan, numberPiece] at h
      split at h
      · split at h
        · rename_i hmay
          have htext : text = String.ofList (lit ++ ['i']) := by
            simpa [ofToken] using h.symm
          refine ⟨lit, (Number.mayBeImaginary_iff ?_).mp hmay, htext⟩
          cases lit with
          | nil => exact absurd rfl hne
          | cons d lit =>
              obtain ⟨rfl, -⟩ := List.cons.inj happ
              refine decide_eq_true ?_
              rintro rfl
              simp [Lead.Promises] at hpromise
        · simp [ofToken, ofFlaw] at h
      · repeat' split at h
        all_goals simp [ofToken, ofFlaw] at h
  | rawString =>
      rw [Lead.piece, rawString] at h
      repeat' split at h
      all_goals simp [ofToken, ofFlaw] at h
  | string =>
      refine absurd h (quoted_ne_imaginary (fun quote body text => ?_) Quoted.stringToken_judges _ _ _)
      rw [Quoted.stringToken]
      split <;> simp
  | rune =>
      rw [Lead.piece, rune] at h
      split at h
      · simp [ofToken, ofFlaw] at h
      · refine absurd h (quoted_ne_imaginary (fun quote body text => ?_) Quoted.runeToken_judges _ _ _)
        unfold Quoted.runeToken
        repeat' split
        all_goals simp
  | blockComment =>
      rw [Lead.piece, blockComment] at h
      repeat' split at h
      all_goals simp [ofToken, ofFlaw] at h
  | mark =>
      rw [Lead.piece, mark] at h
      repeat' split at h
      all_goals simp [ofToken, ofFlaw] at h

/-- A piece of a source is the first one of some source. -/
theorem exists_first_of_mem_cut {cs : List Char} {p : Piece} (h : p ∈ cut 0 cs) :
    ∃ c rest, p = first c rest := by
  generalize hps : cut 0 cs = ps at h
  induction ps generalizing cs with
  | nil => exact absurd h List.not_mem_nil
  | cons q ps ih =>
      obtain ⟨c, text, rest, -, -, hq, hrest⟩ := cut_eq_cons hps
      rcases List.mem_cons.mp h with rfl | h
      · exact ⟨c, text ++ rest, hq.symm⟩
      · exact ih hrest h

end Piece

/-- A lexeme is the semicolon for a line end, or the token of one of the pieces. -/
theorem mem_ofPieces {l : Lexeme} {armed : Bool} {offset : Nat} {ps : List Piece}
    (h : l ∈ Lexeme.ofPieces armed offset ps) :
    l.token = .mark .semicolon ∨ ∃ p ∈ ps, ∃ place, p.token? place = some l.token := by
  induction ps generalizing armed offset with
  | nil =>
      rw [Lexeme.ofPieces] at h
      split at h
      · rw [List.mem_singleton.mp h]
        exact .inl rfl
      · exact absurd h List.not_mem_nil
  | cons p ps ih =>
      cases htoken : p.token? offset with
      | some t =>
          rw [ofPieces_token _ htoken] at h
          rcases List.mem_cons.mp h with rfl | h
          · exact .inr ⟨p, by simp, offset, htoken⟩
          · obtain hmark | ⟨q, hq, hplace⟩ := ih h
            · exact .inl hmark
            · exact .inr ⟨q, List.mem_cons_of_mem _ hq, hplace⟩
      | none =>
          rw [ofPieces_filler _ htoken] at h
          rcases List.mem_append.mp h with h | h
          · rw [fillerLineEnds] at h
            split at h
            · obtain ⟨place, -, rfl⟩ := List.mem_map.mp h
              exact .inl rfl
            · exact absurd h List.not_mem_nil
          · obtain hmark | ⟨q, hq, hplace⟩ := ih h
            · exact .inl hmark
            · exact .inr ⟨q, List.mem_cons_of_mem _ hq, hplace⟩

open Number in
/--
**Imaginary numbers.** What stands in front of the `i` of one is decimal digits, an
integer or a float of the grammar, or else a run of decimal digits and underscores
that starts with a digit and is not written as the grammar asks. All of these, with an
`i` behind them, are one token, and nothing is complained about.
-/
theorem imaginary_iff (src : String) :
    (∀ l ∈ tokenize src, ∀ text, l.token = .literal .imaginary text →
      ∃ n, text = String.ofList (n ++ ['i']) ∧
        (n ∈ decimalDigits + intLit + floatLit ∨ n ∈ looseDigits ∧ n ∉ decimalDigits)) ∧
    ∀ n, n ∈ decimalDigits + intLit + floatLit ∨ n ∈ looseDigits → src.toList = n ++ ['i'] →
      tokenize src = [⟨0, src.utf8ByteSize, .literal .imaginary src⟩,
        Lexeme.lineEnd src.utf8ByteSize] ∧
      lexicalDiagnostics (tokenize src) = [] := by
  refine ⟨?_, ?_⟩
  · intro l hl text htoken
    rcases mem_ofPieces hl with hmark | ⟨p, hp, place, hplace⟩
    · rw [htoken] at hmark
      exact absurd hmark (by simp)
    · obtain ⟨c, rest, rfl⟩ := Piece.exists_first_of_mem_cut hp
      have hkind : (Piece.first c rest).kind = .token (.literal .imaginary text) := by
        rw [htoken, Piece.token?] at hplace
        split at hplace
        · rename_i t ht
          rw [ht, Option.some.inj hplace]
        · split at hplace <;> simp at hplace
        all_goals simp at hplace
      obtain ⟨n, hn, htext⟩ := Piece.imaginaryPart_of_first hkind
      refine ⟨n, htext, ?_⟩
      simp only [Number.imaginaryPart, Language.mem_add] at hn ⊢
      tauto
  · intro n hn hsrc
    have hpart : n ∈ Number.imaginaryPart := by
      rcases hn with ((hn | hn) | hn) | hn
      · exact .inl (.inl (decimalDigits_le_looseDigits hn))
      · exact .inl (.inr hn)
      · exact .inr hn
      · exact .inl (.inl hn)
    have hsize : src.utf8ByteSize = byteSize (n ++ ['i']) := by rw [← hsrc, byteSize_toList]
    have htext : String.ofList (n ++ ['i']) = src := by rw [← hsrc, String.ofList_toList]
    have htokenize : tokenize src = [⟨0, src.utf8ByteSize, .literal .imaginary src⟩,
        Lexeme.lineEnd src.utf8ByteSize] := by
      rw [tokenize, Piece.ofSource, hsrc, Piece.cut_imaginary hpart, ofPieces_token _ rfl, htext,
        hsize]
      simp [Piece.ofToken, Piece.cut, Lexeme.ofPieces, Token.endsStatement]
    refine ⟨htokenize, ?_⟩
    rw [htokenize]
    rfl

open Number in
/-- Leading zeros, which would have to be octal without the `i`. -/
theorem imaginary_iff_leading_zero :
    "0789".toList ∈ decimalDigits ∧
      tokenize "0789i" = [⟨0, 5, .literal .imaginary "0789i"⟩, Lexeme.lineEnd 5] ∧
      lexicalDiagnostics (tokenize "0789i") = [] := by
  have hdigits : "0789".toList ∈ decimalDigits :=
    (Base.mem_digits_iff (b := .decimal)).mpr
      ⟨by decide, List.all_eq_true.mp (by decide), by decide⟩
  exact ⟨hdigits, (imaginary_iff "0789i").2 _ (.inl (.inl (.inl hdigits))) (by decide)⟩

open Number in
/-- Two underscores next to each other are let through, though the grammar has no such number. -/
theorem imaginary_double_underscore :
    tokenize "1__0i" = [⟨0, 5, .literal .imaginary "1__0i"⟩, Lexeme.lineEnd 5] ∧
      lexicalDiagnostics (tokenize "1__0i") = [] ∧
      "1__0".toList ∉ decimalDigits + intLit + floatLit := by
  refine ⟨by decide +kernel, by decide +kernel, ?_⟩
  have hdigits : "1__0".toList ∉ decimalDigits := by
    intro h
    have hsep := ((Base.mem_digits_iff (b := .decimal)).mp h).2.2
    exact absurd hsep (by decide)
  have hint : "1__0".toList ∉ intLit := by
    rw [← classify_eq_int_iff_mem]
    decide
  have hfloat : "1__0".toList ∉ floatLit := by
    rw [← classify_eq_float_iff_mem]
    decide
  rw [Language.mem_add, Language.mem_add]
  tauto

end GoGloss
