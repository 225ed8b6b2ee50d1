import Mathlib.Data.List.Find
import GoGloss.Proofs.Layout

/-!
# A piece does not look far

Where a piece ends is settled by its own text and by very little of what stands
behind it: one character, and two where a point follows a number. So a piece stays
what it is when the source behind it is cut off, or continued, at a place where the
difference does not show: at the end of the source, at a blank or at a line break.

A few characters behind a piece do show. A comment to the end of the line goes on
over blanks, a word that is spelled like a keyword is a name in front of certain
characters, and a point is part of the number before it unless another one follows.

`first_local` says this of one piece and `cut_local` of a row of pieces. Only
complete pieces are meant: one that is open at the end, such as a string without its
closing quote, changes with what is put behind it.
-/

namespace GoGloss

open Character

/-! ## What stands behind -/

/-- The characters that end every piece but a comment. -/
def separators : List Char :=
  [' ', '\t', '\x0c', '\n', '\r']

/-- A source that starts with a separator, or is at its end. -/
def Parted (rest : List Char) : Prop :=
  ∀ c ∈ rest.head?, c ∈ separators

/-- The characters that end every word and every number. -/
def closers : List Char :=
  separators ++ ['(', ')', '[', ']', ',', ':']

/-- A source that starts with a character that ends words and numbers, or is at its end. -/
def Closed (rest : List Char) : Prop :=
  ∀ c ∈ rest.head?, c ∈ closers

/-- A source that looks like another to a word or number in front of it, or ends it. -/
def LooksAlike (tail tail' : List Char) : Prop :=
  tail'.head? = tail.head? ∨ Closed tail'

theorem Parted.closed {rest : List Char} (h : Parted rest) : Closed rest :=
  fun c hc => List.mem_append_left _ (h c hc)

theorem Closed.head {rest : List Char} (h : Closed rest) {p : Char → Bool}
    (hp : closers.all (!p ·) = true) : ∀ c ∈ rest.head?, p c = false := by
  intro c hc
  simpa using List.all_eq_true.mp hp c (h c hc)

theorem Parted.head {rest : List Char} (h : Parted rest) {p : Char → Bool}
    (hp : separators.all (!p ·) = true) : ∀ c ∈ rest.head?, p c = false := by
  intro c hc
  simpa using List.all_eq_true.mp hp c (h c hc)

theorem LooksAlike.head {tail tail' : List Char} (h : LooksAlike tail tail') {p : Char → Bool}
    (hp : closers.all (!p ·) = true) (htail : ∀ c ∈ tail.head?, p c = false) :
    ∀ c ∈ tail'.head?, p c = false := by
  rcases h with h | h
  · rwa [h]
  · exact h.head hp

theorem LooksAlike.append {tail tail' : List Char} (h : LooksAlike tail tail')
    (text : List Char) : LooksAlike (text ++ tail) (text ++ tail') := by
  cases text with
  | nil => exact h
  | cons c text => exact .inl rfl

/-- A run of characters is in front, and the first one behind it is none of them. -/
theorem takeWhile_eq_iff {p : Char → Bool} {text tail : List Char} :
    (text ++ tail).takeWhile p = text ↔
      (∀ c ∈ text, p c = true) ∧ ∀ c ∈ tail.head?, p c = false := by
  induction text with
  | nil =>
      cases tail with
      | nil => simp
      | cons c tail => by_cases hc : p c = true <;> simp [hc]
  | cons c text ih =>
      by_cases hc : p c = true
      · simp [hc, ih]
      · simp [hc]

theorem dropWhile_of_takeWhile {p : Char → Bool} {text tail : List Char}
    (h : (text ++ tail).takeWhile p = text) : (text ++ tail).dropWhile p = tail := by
  have happ := List.takeWhile_append_dropWhile (p := p) (l := text ++ tail)
  rw [h] at happ
  exact List.append_cancel_left happ

/-! ## Numbers -/

namespace Number

variable {tail tail' : List Char}

theorem run_eq_iff {digit : Char → Bool} {text : List Char} :
    run digit (text ++ tail) = (text, tail) ↔
      (∀ c ∈ text, (c == '_' || digit c) = true) ∧
        ∀ c ∈ tail.head?, (c == '_' || digit c) = false := by
  rw [run, List.span_eq_takeWhile_dropWhile, ← takeWhile_eq_iff]
  exact ⟨fun h => (Prod.mk.inj h).1, fun h => by rw [h, dropWhile_of_takeWhile h]⟩

theorem run_local {digit : Char → Bool} (hdigit : closers.all (!digit ·) = true)
    {text : List Char} (h : run digit (text ++ tail) = (text, tail))
    (ht : LooksAlike tail tail') : run digit (text ++ tail') = (text, tail') := by
  rw [run_eq_iff] at h ⊢
  refine ⟨h.1, ht.head ?_ h.2⟩
  simp only [closers, separators, List.cons_append, List.nil_append, List.all_cons, List.all_nil]
    at hdigit ⊢
  simpa using hdigit

theorem holdsDigit_closers (b : Base) : closers.all (!b.holdsDigit ·) = true := by
  cases b <;> decide

/-- Two points that follow a number are seen together, or not at all. -/
def PointsTogether (tail tail' : List Char) : Prop :=
  tail.take 2 = ['.', '.'] → tail'.head? = some '.' → tail'.take 2 = ['.', '.']

theorem pointsTogether_append {mid rest rest' : List Char}
    (hpoint : mid = ['.'] → rest.head? ≠ some '.') (hrest : Parted rest') :
    PointsTogether (mid ++ rest) (mid ++ rest') := by
  intro htwo hhead
  match mid with
  | [] => exact absurd (hrest '.' hhead) (by decide)
  | [c] =>
      -- the second point stands right where the source changes
      cases rest with
      | nil => simp at htwo
      | cons d rest =>
          obtain ⟨rfl, rfl⟩ : c = '.' ∧ d = '.' := by simpa using htwo
          exact absurd rfl (hpoint rfl)
  | c :: d :: mid => simpa using htwo

theorem scanFraction_local {b : Base} {text : List Char}
    (h : scanFraction b (text ++ tail) = (text, tail)) (ht : LooksAlike tail tail')
    (hpoints : PointsTogether tail tail') :
    scanFraction b (text ++ tail') = (text, tail') := by
  cases text with
  | nil =>
      by_cases hhead : tail'.head? = some '.'
      · -- the number ended in front of a point, so there were two
        have hsame : tail.head? = some '.' := by
          rcases ht with ht | ht
          · rw [← ht, hhead]
          · exact absurd (ht '.' hhead) (by decide)
        have htwo : tail.take 2 = ['.', '.'] := by
          obtain ⟨cs, rfl⟩ := List.head?_eq_some_iff.mp hsame
          cases cs with
          | nil => simp [scanFraction] at h
          | cons d cs =>
              by_cases hd : d = '.'
              · simp [hd]
              · simp [scanFraction, hd] at h
        match tail', hpoints htwo hhead with
        | c :: d :: cs, htake =>
            obtain ⟨rfl, rfl⟩ : c = '.' ∧ d = '.' := by simpa using htake
            rfl
        | [c], htake => simp at htake
      · rw [List.nil_append, scanFraction.eq_def]
        split
        · simp at hhead
        · simp at hhead
        · rfl
  | cons c text =>
      have hc : c = '.' := by
        by_contra hc
        simp [scanFraction, hc] at h
      subst hc
      -- what follows the point starts no second one, then and now
      have hrun : run b.holdsDigit (text ++ tail) = (text, tail) ∧
          (text ++ tail).head? ≠ some '.' := by
        rw [List.cons_append, scanFraction.eq_def] at h
        split at h
        · simp at h
        · rename_i cs hne heq
          obtain ⟨-, rfl⟩ := List.cons.inj heq
          obtain ⟨h₁, h₂⟩ := Prod.mk.inj h
          refine ⟨Prod.ext (List.cons.inj h₁).2 h₂, fun hhead => ?_⟩
          obtain ⟨cs, hcs⟩ := List.head?_eq_some_iff.mp hhead
          exact hne cs (by rw [hcs])
        · simp at h
      have hrun' := run_local (holdsDigit_closers b) hrun.1 ht
      have hhead' := (ht.append text).head (p := (· == '.')) (by decide) (by
        intro c hc
        simp only [beq_eq_false_iff_ne]
        rintro rfl
        exact hrun.2 hc)
      rw [List.cons_append, scanFraction.eq_def]
      split
      · rename_i heq
        rw [(List.cons.inj heq).2] at hhead'
        simp at hhead'
      · rename_i heq
        obtain ⟨-, rfl⟩ := List.cons.inj heq
        rw [hrun']
      · rename_i hne
        exact absurd rfl (hne (text ++ tail'))

theorem scanSign_local {text : List Char} (h : scanSign (text ++ tail) = (text, tail))
    (ht : LooksAlike tail tail') : scanSign (text ++ tail') = (text, tail') := by
  cases text with
  | nil =>
      have hsign : ∀ c ∈ tail'.head?, (c == '+' || c == '-') = false := by
        refine ht.head (by decide) fun c hc => ?_
        obtain ⟨cs, rfl⟩ := List.head?_eq_some_iff.mp hc
        by_contra hsign
        simp only [Bool.not_eq_false, Bool.or_eq_true, beq_iff_eq] at hsign
        rcases hsign with rfl | rfl <;> simp [scanSign] at h
      rw [List.nil_append, scanSign.eq_def]
      split
      · simp at hsign
      · simp at hsign
      · rfl
  | cons c text =>
      rw [List.cons_append, scanSign.eq_def] at h
      split at h
      · rename_i heq
        obtain ⟨rfl, rfl⟩ := List.cons.inj heq
        obtain ⟨h₁, -⟩ := Prod.mk.inj h
        obtain rfl : text = [] := (List.cons.inj h₁).2.symm
        rfl
      · rename_i heq
        obtain ⟨rfl, rfl⟩ := List.cons.inj heq
        obtain ⟨h₁, -⟩ := Prod.mk.inj h
        obtain rfl : text = [] := (List.cons.inj h₁).2.symm
        rfl
      · simp at h

theorem scanExponent_local {text : List Char} (h : scanExponent (text ++ tail) = (text, tail))
    (ht : LooksAlike tail tail') : scanExponent (text ++ tail') = (text, tail') := by
  cases text with
  | nil =>
      have hletter : ∀ c ∈ tail'.head?,
          (Base.decimal.hasExponent c || Base.hexadecimal.hasExponent c) = false := by
        refine ht.head (by decide) fun c hc => ?_
        obtain ⟨cs, rfl⟩ := List.head?_eq_some_iff.mp hc
        by_contra hletter
        simp only [Bool.not_eq_false] at hletter
        rw [List.nil_append, scanExponent, if_pos hletter] at h
        simp at h
      cases tail' with
      | nil => rfl
      | cons c cs => rw [List.nil_append, scanExponent, if_neg (by simp [hletter c rfl])]
  | cons c text =>
      rw [List.cons_append, scanExponent] at h
      split at h
      · rename_i hletter
        obtain ⟨h₁, h₂⟩ := Prod.mk.inj h
        replace h₁ : (scanSign (text ++ tail)).1 ++
            (run Char.isDigit (scanSign (text ++ tail)).2).1 = text := (List.cons.inj h₁).2
        replace h₂ : (run Char.isDigit (scanSign (text ++ tail)).2).2 = tail := h₂
        -- the exponent is a sign and digits, and both are found again
        generalize hsign : (scanSign (text ++ tail)).1 = sign at h₁
        generalize hdigits : (run Char.isDigit (scanSign (text ++ tail)).2).1 = digits at h₁
        have hrest : (scanSign (text ++ tail)).2 = digits ++ tail := by
          rw [← run_append Char.isDigit (scanSign (text ++ tail)).2, hdigits, h₂]
        have hscan : scanSign (sign ++ (digits ++ tail)) = (sign, digits ++ tail) := by
          rw [← List.append_assoc, h₁]
          exact Prod.ext hsign hrest
        have hrun : run Char.isDigit (digits ++ tail) = (digits, tail) := by
          rw [← hrest]
          exact Prod.ext hdigits h₂
        have hscan' := scanSign_local hscan (ht.append digits)
        have hrun' := run_local (by decide) hrun ht
        subst h₁
        rw [List.cons_append, scanExponent, if_pos hletter, List.append_assoc, hscan']
        dsimp only
        rw [hrun']
      · simp at h

theorem leadLength_announced_le (cs : List Char) :
    (Base.announced cs).leadLength ≤ cs.length := by
  fun_cases Base.announced cs <;> simp [Base.leadLength]

theorem announced_take (cs : List Char) : Base.announced (cs.take 2) = Base.announced cs := by
  match cs with
  | [] => rfl
  | [c] => rfl
  | c :: d :: cs =>
      by_cases hc : c = '0'
      · subst hc
        unfold Base.announced
        split <;> simp_all
      · simp [Base.announced, hc]

/-- What a number announces stays the same with another source behind it. -/
theorem announced_local {text : List Char} (hne : text ≠ [])
    (hlead : (Base.announced (text ++ tail)).leadLength ≤ text.length)
    (ht : LooksAlike tail tail') :
    Base.announced (text ++ tail') = Base.announced (text ++ tail) := by
  match text, hne with
  | c :: d :: text, _ => rw [← announced_take, ← announced_take (_ ++ tail)]; rfl
  | [c], _ =>
      have hdec : Base.announced ([c] ++ tail) = .decimal := by
        by_contra hne
        rw [Base.leadLength, if_neg hne] at hlead
        simp at hlead
      rw [hdec]
      rcases ht with ht | ht
      · rw [← hdec, ← announced_take, ← announced_take ([c] ++ tail)]
        cases tail <;> cases tail' <;> simp_all
      · cases tail' with
        | nil => rw [← announced_take]; simp [Base.announced]
        | cons d tail' =>
            have hd := ht d rfl
            by_cases hc : c = '0'
            · subst hc
              simp only [closers, separators, List.cons_append, List.nil_append, List.mem_cons,
                List.not_mem_nil, or_false] at hd
              rcases hd with rfl | rfl | rfl | rfl | rfl | rfl | rfl | rfl | rfl | rfl | rfl <;> rfl
            · simp [Base.announced, hc]

/-- **A number ends where it ended, whatever follows it,** as far as it cannot see. -/
theorem scan_local {text : List Char} (hne : text ≠ [])
    (h : scan (text ++ tail) = (text, tail)) (ht : LooksAlike tail tail')
    (hpoints : PointsTogether tail tail') :
    scan (text ++ tail') = (text, tail') := by
  -- the four parts of the number
  generalize hb : Base.announced (text ++ tail) = b
  generalize hlead : (text ++ tail).take b.leadLength = lead
  generalize hwhole : run b.holdsDigit ((text ++ tail).drop b.leadLength) = whole
  generalize hfraction : scanFraction b whole.2 = fraction
  generalize hexponent : scanExponent fraction.2 = exponent
  have hparts : (lead ++ whole.1 ++ fraction.1 ++ exponent.1, exponent.2) = (text, tail) := by
    rw [← h, scan]
    simp only [hb, hlead, hwhole, hfraction, hexponent]
  obtain ⟨htext, htail⟩ := Prod.mk.inj hparts
  have hafter : fraction.2 = exponent.1 ++ tail := by
    rw [← scanExponent_append fraction.2, hexponent, htail]
  have hbehind : whole.2 = fraction.1 ++ (exponent.1 ++ tail) := by
    rw [← scanFraction_append b whole.2, hfraction, hafter]
  have hdrop : (text ++ tail).drop b.leadLength =
      whole.1 ++ (fraction.1 ++ (exponent.1 ++ tail)) := by
    rw [← run_append b.holdsDigit (List.drop _ _), hwhole, hbehind]
  have hlength : lead.length = b.leadLength := by
    rw [← hlead, List.length_take]
    exact Nat.min_eq_left (hb ▸ leadLength_announced_le _)
  -- each of them is found again
  have hexponent' : scanExponent (exponent.1 ++ tail') = (exponent.1, tail') :=
    scanExponent_local (by rw [← hafter, hexponent, ← htail]) ht
  have hfraction' : scanFraction b (fraction.1 ++ (exponent.1 ++ tail')) =
      (fraction.1, exponent.1 ++ tail') := by
    have hscan : scanFraction b (fraction.1 ++ (exponent.1 ++ tail)) =
        (fraction.1, exponent.1 ++ tail) := by
      rw [← hbehind, hfraction, ← hafter]
    refine scanFraction_local hscan (ht.append _) ?_
    cases hcase : exponent.1 with
    | nil => exact hpoints
    | cons c cs =>
        -- an exponent starts with its letter
        rintro - hhead
        obtain rfl : c = '.' := by simpa using hhead
        rw [hcase] at hexponent'
        exact absurd hexponent' (by simp [scanExponent, Base.hasExponent])
  have hwhole' : run b.holdsDigit (whole.1 ++ (fraction.1 ++ (exponent.1 ++ tail'))) =
      (whole.1, fraction.1 ++ (exponent.1 ++ tail')) :=
    run_local (holdsDigit_closers b) (by rw [← hdrop, hwhole, ← hbehind])
      ((ht.append _).append _)
  have hb' : Base.announced (text ++ tail') = b :=
    (announced_local hne (by rw [hb, ← hlength, ← htext]; simp) ht).trans hb
  have hsplit : text ++ tail' = lead ++ (whole.1 ++ (fraction.1 ++ (exponent.1 ++ tail'))) := by
    simp [← htext]
  rw [scan]
  simp only [hb']
  rw [hsplit, ← hlength, List.take_left, List.drop_left, hwhole']
  dsimp only
  rw [hfraction']
  dsimp only
  rw [hexponent', ← htext]

end Number

/-! ## Quoted texts and comments -/

/-- The items of a literal end at the first quote among them, whatever follows it. -/
theorem Quoted.items_local {quote : Char} {cs body tail : List Char} (hq : quote ≠ '\\')
    (h : items quote cs = (body, quote :: tail)) (tail' : List Char) :
    items quote (body ++ quote :: tail') = (body, quote :: tail') := by
  fun_induction items quote cs generalizing body with
  | case1 => simp at h
  | case2 => simp at h; exact absurd h.2.1 (Ne.symm hq)
  | case3 c cs hc taken rest heq ih =>
      obtain ⟨rfl, rfl⟩ := Prod.mk.inj h
      simp [items, hc, ih heq]
  | case4 c cs hother hplain taken rest heq ih =>
      obtain ⟨rfl, rfl⟩ := Prod.mk.inj h
      have hc : c ≠ '\\' := by rintro rfl; simp [isPlain] at hplain
      rw [List.cons_append, items]
      · rw [if_pos hplain, ih heq]
      · rintro d ds rfl; exact absurd rfl hc
  | case5 c cs hother hplain =>
      obtain ⟨rfl, -⟩ := Prod.mk.inj h
      rw [List.nil_append, items]
      · simp [isPlain]
      · rintro d ds hd; exact absurd hd hq

namespace Piece

theorem throughCommentEnd?_local {cs body : List Char} (h : throughCommentEnd? cs = some body)
    (tail : List Char) : throughCommentEnd? (body ++ tail) = some body := by
  fun_induction throughCommentEnd? cs generalizing body with
  | case1 => simp at h
  | case2 cs => cases h; rfl
  | case3 c cs hne ih =>
      obtain ⟨body', hbody', rfl⟩ := Option.map_eq_some_iff.mp h
      obtain ⟨⟨rest, rfl⟩, ⟨inside, hinside⟩, -⟩ := throughCommentEnd?_spec hbody'
      rw [List.cons_append, throughCommentEnd?, ih hbody', Option.map_some]
      -- the comment goes on behind its first character, so it does not end there
      rintro after rfl hafter
      cases body' with
      | nil => simp at hinside
      | cons d body' =>
          obtain ⟨rfl, -⟩ := List.cons.inj hafter
          exact hne _ rfl rfl

/-! ## The kinds of pieces -/

section Kinds

variable {text tail tail' : List Char}

/-- The piece that the digits of a number make, where `i` says whether an `i` follows them. -/
def numberPiece (i : Bool) (lit : List Char) : Piece :=
  if i then
    if Number.mayBeImaginary lit then
      ofToken (.literal .imaginary (String.ofList (lit ++ ['i']))) (lit ++ ['i'])
    else ofFlaw .invalidNumber (lit ++ ['i'])
  else
    match Number.classify lit with
    | some .int => ofToken (.literal .int (String.ofList lit)) lit
    | some .float => ofToken (.literal .float (String.ofList lit)) lit
    | none => ofFlaw .invalidNumber lit

theorem numberPiece_text (i : Bool) (lit : List Char) :
    (numberPiece i lit).text = if i then lit ++ ['i'] else lit := by
  rw [numberPiece]
  cases i with
  | true => simp only [if_true]; split <;> rfl
  | false => simp only [Bool.false_eq_true, if_false]; split <;> rfl

theorem number_eq {cs lit rest : List Char} (h : Number.scan cs = (lit, rest)) :
    number cs = numberPiece (rest.head? == some 'i') lit := by
  rw [number, h, numberPiece]
  cases rest with
  | nil => rfl
  | cons c rest =>
      by_cases hc : c = 'i'
      · subst hc; simp
      · split
        · rename_i heq
          exact absurd (List.cons.inj (Prod.mk.inj heq).2).1 hc
        · rename_i heq
          obtain ⟨rfl, -⟩ := Prod.mk.inj heq
          exact (if_neg (by simpa using hc)).symm

theorem number_local (hne : (Number.scan (text ++ tail)).1 ≠ [])
    (hfits : (number (text ++ tail)).text = text) (ht : LooksAlike tail tail')
    (hpoints : Number.PointsTogether tail tail') :
    number (text ++ tail') = number (text ++ tail) := by
  have happ := Number.scan_append (text ++ tail)
  rcases hscan : Number.scan (text ++ tail) with ⟨lit, rest⟩
  rw [hscan] at happ hne
  dsimp only at happ hne
  rw [number_eq hscan, numberPiece_text] at hfits
  by_cases hi : rest.head? = some 'i'
  · -- the `i` belongs to the piece, so the digits see nothing of what follows it
    obtain ⟨rest, rfl⟩ := List.head?_eq_some_iff.mp hi
    obtain rfl : lit ++ ['i'] = text := by simpa using hfits
    obtain rfl : rest = tail := by simpa using happ
    have hlooks : LooksAlike ('i' :: rest) ('i' :: tail') := .inl rfl
    have hscan' := Number.scan_local hne (by simpa using hscan) hlooks
      (by simp [Number.PointsTogether])
    rw [number_eq hscan, number_eq (by simpa using hscan')]
    rfl
  · obtain rfl : lit = text := by simpa [hi] using hfits
    obtain rfl : rest = tail := List.append_cancel_left happ
    have hi' : tail'.head? ≠ some 'i' := by
      have h := ht.head (p := (· == 'i')) (by decide) fun c hc => by
        simpa using fun h : c = 'i' => hi (h ▸ hc)
      intro hhead
      simpa using h 'i' hhead
    rw [number_eq hscan, number_eq (Number.scan_local hne hscan ht hpoints),
      beq_eq_false_iff_ne.mpr hi, beq_eq_false_iff_ne.mpr hi']

theorem word_local (hfits : (word (text ++ tail)).text = text) (ht : LooksAlike tail tail')
    (hword : tail'.head? = tail.head? ∨
      (tail.head?.any leadsLikeWord = true → tail.head?.any isNamePart = true)) :
    word (text ++ tail') = word (text ++ tail) := by
  rw [word_eq] at hfits
  replace hfits : (text ++ tail).takeWhile isNamePart = text := hfits
  have hfits' : (text ++ tail').takeWhile isNamePart = text := by
    rw [takeWhile_eq_iff] at hfits ⊢
    exact ⟨hfits.1, ht.head (by decide) hfits.2⟩
  have hpart : tail.head?.any isNamePart = false := by
    rw [Option.any_eq_false]
    simpa using (takeWhile_eq_iff.mp hfits).2
  have hlead : tail'.head?.any leadsLikeWord = tail.head?.any leadsLikeWord := by
    rcases hword with hword | hword
    · rw [hword]
    · -- the word ends here, so what follows does not lead like one
      have h : tail.head?.any leadsLikeWord = false := by
        cases h : tail.head?.any leadsLikeWord with
        | true => exact absurd (hword h) (by simp [hpart])
        | false => rfl
      rw [h]
      rw [Option.any_eq_false] at h ⊢
      simpa using ht.head (p := leadsLikeWord) (by decide) (by simpa using h)
  rw [word_eq, word_eq, hfits, hfits', dropWhile_of_takeWhile hfits, dropWhile_of_takeWhile hfits',
    wordToken, wordToken, hlead]

theorem lineComment_local (hfits : (lineComment (text ++ tail)).text = '/' :: '/' :: text)
    (ht : tail'.head? = tail.head? ∨ ∀ c ∈ tail'.head?, isLineBreak c = true) :
    lineComment (text ++ tail') = lineComment (text ++ tail) := by
  have htext : (text ++ tail).takeWhile (!isLineBreak ·) = text := by
    simpa [lineComment] using hfits
  have htext' : (text ++ tail').takeWhile (!isLineBreak ·) = text := by
    rw [takeWhile_eq_iff] at htext ⊢
    refine ⟨htext.1, ?_⟩
    rcases ht with ht | ht
    · rw [ht]; exact htext.2
    · simpa using ht
  rw [lineComment, lineComment, htext, htext']

variable {judge : Char → List Char → String → Token} {quote : Char}

/-- A complete comment does not see what follows it. -/
theorem blockComment_local (hfits : (blockComment (text ++ tail)).text = '/' :: '*' :: text)
    (hlegal : ∀ flaw, (blockComment (text ++ tail)).kind ≠ .token (.illegal flaw)) :
    blockComment (text ++ tail') = blockComment (text ++ tail) := by
  rw [blockComment, blockComment]
  rw [blockComment] at hfits hlegal
  cases h : throughCommentEnd? (text ++ tail) with
  | none => exact absurd rfl (h ▸ hlegal .unterminatedComment)
  | some body =>
      obtain rfl : body = text := by simpa [h] using hfits
      rw [throughCommentEnd?_local h]

/-- Nor does a complete raw string. -/
theorem rawString_local (hfits : (rawString (text ++ tail)).text = '\x60' :: text)
    (hlegal : ∀ flaw, (rawString (text ++ tail)).kind ≠ .token (.illegal flaw)) :
    rawString (text ++ tail') = rawString (text ++ tail) := by
  rw [rawString] at hfits hlegal
  dsimp only at hfits hlegal
  split at hfits
  · rename_i hlt
    generalize hbody : (text ++ tail).takeWhile (· ≠ '\x60') = body at hfits hlt
    obtain rfl : body ++ ['\x60'] = text := by simpa [ofToken] using hfits
    have hstop : ∀ rest : List Char,
        (body ++ ['\x60'] ++ rest).takeWhile (· ≠ '\x60') = body := by
      intro rest
      rw [List.append_assoc, takeWhile_eq_iff]
      refine ⟨fun c hc => ?_, by simp⟩
      rw [← hbody] at hc
      exact List.all_eq_true.mp List.all_takeWhile c hc
    rw [rawString, rawString, hstop, hstop]
    simp
  · rename_i hlt
    rw [if_neg hlt] at hlegal
    exact absurd rfl (hlegal .invalidToken)

/-- A complete literal ends with its closing quote. -/
theorem quoted_closed (hfits : (quoted judge quote (text ++ tail)).text = quote :: text)
    (hlegal : ∀ flaw, (quoted judge quote (text ++ tail)).kind ≠ .token (.illegal flaw)) :
    ∃ body, text = body ++ [quote] ∧
      Quoted.items quote (text ++ tail) = (body, quote :: tail) := by
  have happ := Quoted.items_append quote (text ++ tail)
  rcases hitems : Quoted.items quote (text ++ tail) with ⟨body, rest⟩
  rw [hitems] at happ
  rw [quoted, hitems] at hfits hlegal
  dsimp only at hfits hlegal happ
  by_cases hclose : rest.head? = some quote
  · obtain ⟨rest, rfl⟩ := List.head?_eq_some_iff.mp hclose
    obtain rfl : body ++ [quote] = text := by simpa [hclose, ofToken] using hfits
    obtain rfl : rest = tail := by simpa using happ
    exact ⟨body, rfl, rfl⟩
  · rw [if_neg hclose] at hlegal
    exact absurd rfl (hlegal .invalidToken)

theorem quoted_local (hq : quote ≠ '\\')
    (hfits : (quoted judge quote (text ++ tail)).text = quote :: text)
    (hlegal : ∀ flaw, (quoted judge quote (text ++ tail)).kind ≠ .token (.illegal flaw)) :
    quoted judge quote (text ++ tail') = quoted judge quote (text ++ tail) := by
  obtain ⟨body, rfl, hitems⟩ := quoted_closed hfits hlegal
  have hitems' := Quoted.items_local hq hitems tail'
  rw [quoted, quoted, hitems, List.append_assoc, List.cons_append, List.nil_append, hitems']
  simp

theorem rune_local (hfits : (rune (text ++ tail)).text = '\x27' :: text)
    (hlegal : ∀ flaw, (rune (text ++ tail)).kind ≠ .token (.illegal flaw)) :
    rune (text ++ tail') = rune (text ++ tail) := by
  rw [rune] at hfits hlegal
  by_cases hempty : (text ++ tail).head? = some '\x27'
  · rw [if_pos hempty] at hlegal
    exact absurd rfl (hlegal .invalidToken)
  · rw [if_neg hempty] at hfits hlegal
    have hhead : (text ++ tail').head? = (text ++ tail).head? := by
      obtain ⟨body, rfl, -⟩ := quoted_closed hfits hlegal
      cases body <;> rfl
    rw [rune, rune, hhead, if_neg hempty, if_neg hempty, quoted_local (by decide) hfits hlegal]

/-- Text without separators that starts a source ends before the first of them. -/
theorem prefix_of_parted {rest : List Char} (hrest : Parted rest)
    (hsep : ∀ c ∈ text, c ∉ separators) (h : text <+: tail ++ rest) : text <+: tail := by
  rcases Nat.lt_or_ge tail.length text.length with hlt | hle
  · obtain ⟨more, rfl⟩ : tail <+: text :=
      List.prefix_of_prefix_length_le (List.prefix_append _ _) h (Nat.le_of_lt hlt)
    obtain ⟨after, hafter⟩ := (List.prefix_append_right_inj tail).mp h
    cases more with
    | nil => simp at hlt
    | cons c more => exact absurd (hrest c (by rw [← hafter]; rfl)) (hsep c (by simp))
  · exact List.prefix_of_prefix_length_le h (List.prefix_append _ _) hle

theorem longest?_local {rest rest' : List Char} {m : Mark}
    (h : Mark.longest? (text ++ rest) = some m) (hfits : m.text.toList <+: text)
    (hrest : Parted rest') : Mark.longest? (text ++ rest') = some m := by
  have hall : (Mark.all.all fun m => m.text.toList.all (!separators.contains ·)) = true := by
    decide +kernel
  have hsep : ∀ m ∈ Mark.all, ∀ c ∈ m.text.toList, c ∉ separators := by
    simpa [List.all_eq_true] using hall
  rw [Mark.longest?, List.find?_eq_some_iff_append] at h ⊢
  obtain ⟨-, longer, others, hmarks, hlonger⟩ := h
  refine ⟨?_, longer, others, hmarks, fun m' hm' => ?_⟩
  · rw [List.isPrefixOf_iff_prefix]
    exact hfits.trans (List.prefix_append _ _)
  · -- a longer mark that fits now would have fitted before
    by_contra hnow
    rw [Bool.not_eq_true', Bool.not_eq_false, List.isPrefixOf_iff_prefix] at hnow
    have hmem : m' ∈ Mark.all := by simp [hmarks, hm']
    have hbefore := (prefix_of_parted hrest (hsep m' hmem) hnow).trans (List.prefix_append _ rest)
    have hnot := hlonger m' hm'
    rw [List.isPrefixOf_iff_prefix.mpr hbefore] at hnot
    exact absurd hnot (by decide)

end Kinds

/-! ## The first piece -/

/-- No name starts with a digit. -/
theorem isNameStart_of_isDigit {c : Char} (h : c.isDigit = true) : isNameStart c = false := by
  simp only [Char.isDigit, Bool.and_eq_true, decide_eq_true_eq] at h
  have hlow : 48 ≤ c.toNat := h.1
  have hhigh : c.toNat ≤ 57 := h.2
  have hne : c ≠ '_' := by
    rintro rfl
    exact absurd hhigh (by decide)
  have hupper : c.isUpper = false := decide_eq_false fun h =>
    absurd (Nat.le_trans (show 65 ≤ c.toNat from h.1) hhigh) (by decide)
  have hlower : c.isLower = false := Bool.and_eq_false_imp.mpr fun h =>
    absurd (Nat.le_trans (show 97 ≤ c.toNat from of_decide_eq_true h) hhigh) (by decide)
  have halpha : c.isAlpha = false := Bool.or_eq_false_iff.mpr ⟨hupper, hlower⟩
  rw [isNameStart, isLetter, if_pos (by omega), halpha]
  simpa using hne

/-- What a piece can be, by how it starts. -/
inductive Lead where
  | blank | lineBreak | byteOrderMark
  | word | number | rawString | string | rune
  | lineComment | blockComment | mark

/-- How a piece starts, by its first character and the one after it. -/
def lead (c : Char) (next : Option Char) : Lead :=
  if isBlank c then .blank
  else if isLineBreak c then .lineBreak
  else if c = '\uFEFF' then .byteOrderMark
  else if isNameStart c then .word
  else if c.isDigit || (c = '.' && next.any Char.isDigit) then .number
  else if c = '\x60' then .rawString
  else if c = '\x22' then .string
  else if c = '\x27' then .rune
  else if c = '/' && next = some '/' then .lineComment
  else if c = '/' && next = some '*' then .blockComment
  else .mark

/-- The piece in front of `c :: cs` if it starts in the given way. -/
def Lead.piece (c : Char) (cs : List Char) : Lead → Piece
  | blank => ⟨.blank, [c]⟩
  | lineBreak => ⟨.lineBreak, [c]⟩
  | byteOrderMark => ⟨.byteOrderMark, [c]⟩
  | word => Piece.word (c :: cs)
  | number => Piece.number (c :: cs)
  | rawString => Piece.rawString cs
  | string => quoted Quoted.stringToken c cs
  | rune => Piece.rune cs
  | lineComment => Piece.lineComment cs.tail
  | blockComment => Piece.blockComment cs.tail
  | mark => Piece.mark c cs

theorem first_eq (c : Char) (cs : List Char) : first c cs = (lead c cs.head?).piece c cs := by
  unfold first lead
  iterate 8
    rw [apply_ite (Lead.piece c cs)]
    refine ite_congr rfl (fun _ => rfl) fun _ => ?_
  split
  · rfl
  · rfl
  · rename_i hline hblock
    rw [if_neg, if_neg]
    · rfl
    · simp only [Bool.and_eq_true, decide_eq_true_eq, List.head?_eq_some_iff]
      exact fun ⟨hc, ds, hds⟩ => hblock ds hc hds
    · simp only [Bool.and_eq_true, decide_eq_true_eq, List.head?_eq_some_iff]
      exact fun ⟨hc, ds, hds⟩ => hline ds hc hds

/-- The characters that a start promises. -/
def Lead.Promises (c : Char) (next : Option Char) : Lead → Prop
  | word => isNameStart c = true
  | number => c.isDigit = true ∨ c = '.' ∧ next.any Char.isDigit = true
  | rawString => c = '\x60'
  | string => c = '\x22'
  | rune => c = '\x27'
  | lineComment => c = '/' ∧ next = some '/'
  | blockComment => c = '/' ∧ next = some '*'
  | blank | lineBreak | byteOrderMark | mark => True

theorem lead_promises (c : Char) (next : Option Char) : (lead c next).Promises c next := by
  unfold lead
  iterate 3
    refine iteInduction (fun _ => trivial) fun _ => ?_
  refine iteInduction (fun h => h) fun _ => ?_
  refine iteInduction (fun h => by simpa [Lead.Promises] using h) fun _ => ?_
  iterate 3
    refine iteInduction (fun h => h) fun _ => ?_
  iterate 2
    refine iteInduction (fun h => by simpa [Lead.Promises] using h) fun _ => ?_
  trivial

/-- A point alone is no number. -/
theorem number_text_ne_point {cs : List Char}
    (hlegal : ∀ flaw, (number cs).kind ≠ .token (.illegal flaw)) : (number cs).text ≠ ['.'] := by
  rcases hscan : Number.scan cs with ⟨lit, rest⟩
  rw [number_eq hscan] at hlegal ⊢
  rw [numberPiece_text]
  generalize (rest.head? == some 'i') = i at hlegal ⊢
  cases i with
  | true =>
      intro h
      have := congrArg List.getLast? h
      simp at this
  | false =>
      intro h
      obtain rfl : lit = ['.'] := by simpa using h
      exact absurd rfl (hlegal .invalidNumber)

/-- The second character matters after a point and after a slash only. -/
theorem lead_eq_none {c : Char} {next : Option Char}
    (hpoint : ¬(c = '.' ∧ next.any Char.isDigit = true))
    (hslash : c = '/' → next ≠ some '/' ∧ next ≠ some '*') : lead c next = lead c none := by
  have hnumber : (decide (c = '.') && next.any Char.isDigit) = false := by simpa using hpoint
  have hline : (decide (c = '/') && decide (next = some '/')) = false := by
    simpa using fun hc => (hslash hc).1
  have hblock : (decide (c = '/') && decide (next = some '*')) = false := by
    simpa using fun hc => (hslash hc).2
  rw [lead, lead, hnumber, hline, hblock]
  simp

/-- How a piece starts is settled within the part of the source that it fits into. -/
theorem lead_local {c : Char} {cs mid rest rest' : List Char}
    (hfits : c :: cs = (first c (cs ++ rest)).text ++ mid)
    (hlegal : ∀ flaw, (first c (cs ++ rest)).kind ≠ .token (.illegal flaw))
    (hrest : Parted rest') : lead c (cs ++ rest').head? = lead c (cs ++ rest).head? := by
  cases cs with
  | cons d cs => rfl
  | nil =>
      rw [List.nil_append] at hfits hlegal
      rw [List.nil_append, List.nil_append]
      have htext : (first c rest).text = [c] := by
        obtain ⟨_, -, hpiece⟩ := first_fits 0 c rest
        cases h : (first c rest).text with
        | nil => exact absurd h hpiece.text_ne_nil
        | cons d ds => rw [h] at hfits; simp_all
      have hnow : lead c rest'.head? = lead c none := by
        have hdigit := hrest.head (p := Char.isDigit) (by decide)
        refine lead_eq_none (fun ⟨_, h⟩ => ?_) fun _ => ⟨fun h => ?_, fun h => ?_⟩
        · rw [Option.any_eq_true] at h
          obtain ⟨d, hd, hdig⟩ := h
          exact absurd (hdigit d hd) (by simp [hdig])
        · exact absurd (hrest '/' h) (by decide)
        · exact absurd (hrest '*' h) (by decide)
      -- a number or a comment that starts with two characters would not fit into one
      have hbefore : lead c rest.head? = lead c none := by
        refine lead_eq_none ?_ ?_
        · rintro ⟨rfl, hdigit⟩
          have hlead : lead '.' rest.head? = .number := by
            rw [lead, if_neg (by decide), if_neg (by decide), if_neg (by decide),
              if_neg (by decide), if_pos (by simp [hdigit])]
          rw [first_eq, hlead] at hlegal htext
          exact number_text_ne_point hlegal htext
        · rintro rfl
          constructor <;> intro hnext
          · rw [first_eq, hnext] at htext
            simp [show lead '/' (some '/') = .lineComment from rfl, Lead.piece, lineComment]
              at htext
          · rw [first_eq, hnext, show lead '/' (some '*') = .blockComment from rfl, Lead.piece,
              blockComment] at htext
            split at htext <;> simp [ofFlaw, ofToken] at htext
      rw [hnow, hbefore]

/--
**The first piece stays what it is** when the source is cut off behind it, or goes on
in another way, at a place where that does not show.
-/
theorem first_local {c : Char} {cs mid rest rest' : List Char}
    (hfits : c :: cs = (first c (cs ++ rest)).text ++ mid)
    (hlegal : ∀ flaw, (first c (cs ++ rest)).kind ≠ .token (.illegal flaw))
    (hword : rest.head?.any leadsLikeWord = true → rest.head?.any isNamePart = true)
    (hpoint : mid = ['.'] → rest.head? ≠ some '.')
    (hrest : Parted rest')
    (hbreak : (first c (cs ++ rest)).kind = .comment → ∀ d ∈ rest'.head?, isLineBreak d = true) :
    first c (cs ++ rest') = first c (cs ++ rest) := by
  have hlead := lead_local hfits hlegal hrest
  have hpromise := lead_promises c (cs ++ rest).head?
  obtain ⟨text, htext, rfl⟩ : ∃ text, (first c (cs ++ rest)).text = c :: text ∧
      cs = text ++ mid := by
    obtain ⟨_, -, hpiece⟩ := first_fits 0 c (cs ++ rest)
    cases h : (first c (cs ++ rest)).text with
    | nil => exact absurd h hpiece.text_ne_nil
    | cons d text =>
        rw [h] at hfits
        obtain ⟨rfl, rfl⟩ := List.cons.inj hfits
        exact ⟨text, rfl, rfl⟩
  rw [first_eq] at hlegal hbreak htext
  rw [first_eq, first_eq, hlead]
  -- what the piece sees behind its own text
  simp only [List.append_assoc] at hlegal hbreak htext hpromise ⊢
  have hlooks : LooksAlike (mid ++ rest) (mid ++ rest') := LooksAlike.append (.inr hrest.closed) mid
  generalize lead c (text ++ (mid ++ rest)).head? = start at hlegal hbreak hpromise htext
  cases start with
  | blank | lineBreak | byteOrderMark => rfl
  | word =>
      show word ((c :: text) ++ (mid ++ rest')) = word ((c :: text) ++ (mid ++ rest))
      refine word_local htext hlooks ?_
      cases mid with
      | nil => exact .inr hword
      | cons d mid => exact .inl rfl
  | number =>
      show number ((c :: text) ++ (mid ++ rest')) = number ((c :: text) ++ (mid ++ rest))
      have hne : (Number.scan ((c :: text) ++ (mid ++ rest))).1 ≠ [] := Number.scan_ne_nil hpromise
      exact number_local hne htext hlooks (Number.pointsTogether_append hpoint hrest)
  | rawString =>
      obtain rfl := hpromise
      exact rawString_local htext hlegal
  | string =>
      obtain rfl := hpromise
      exact quoted_local (by decide) htext hlegal
  | rune =>
      obtain rfl := hpromise
      exact rune_local htext hlegal
  | lineComment =>
      obtain ⟨rfl, -⟩ := hpromise
      obtain ⟨body, rfl⟩ : ∃ body, text = '/' :: body := ⟨_, (List.cons.inj htext).2.symm⟩
      show lineComment (body ++ (mid ++ rest')) = lineComment (body ++ (mid ++ rest))
      refine lineComment_local htext ?_
      cases mid with
      | nil => exact .inr (hbreak rfl)
      | cons d mid => exact .inl rfl
  | blockComment =>
      obtain ⟨rfl, -⟩ := hpromise
      obtain ⟨body, rfl⟩ : ∃ body, text = '*' :: body := by
        dsimp only [Lead.piece, blockComment] at htext
        split at htext <;> exact ⟨_, (List.cons.inj htext).2.symm⟩
      exact blockComment_local htext hlegal
  | mark =>
      dsimp only [Lead.piece] at htext hlegal ⊢
      rw [mark] at htext hlegal
      cases h : Mark.longest? (c :: (text ++ (mid ++ rest))) with
      | none => exact absurd rfl (h ▸ hlegal .invalidToken)
      | some m =>
          have hm : m.text.toList = c :: text := by rw [h] at htext; exact htext
          have hfit : m.text.toList <+: c :: (text ++ mid) := hm ▸ List.prefix_append _ _
          rw [← List.append_assoc, ← List.cons_append] at h
          have hnow := longest?_local h hfit hrest
          rw [List.cons_append, List.append_assoc] at h hnow
          rw [mark, mark, h, hnow]

/-! ## Rows of pieces -/

/-- The first piece of a row, and the source that the others are cut from. -/
theorem cut_eq_cons {cs : List Char} {p : Piece} {ps : List Piece} (h : cut 0 cs = p :: ps) :
    ∃ c text rest, p.text = c :: text ∧ cs = c :: (text ++ rest) ∧
      first c (text ++ rest) = p ∧ cut 0 rest = ps := by
  cases cs with
  | nil => simp [cut] at h
  | cons c cs =>
      obtain ⟨rest, hrest, hpiece⟩ := first_fits 0 c cs
      rw [cut_cons hrest hpiece.text_ne_nil] at h
      obtain ⟨rfl, rfl⟩ := List.cons.inj h
      cases htext : (first c cs).text with
      | nil => exact absurd htext hpiece.text_ne_nil
      | cons d text =>
          rw [htext] at hrest
          obtain ⟨rfl, htail⟩ := List.cons.inj hrest
          exact ⟨c, text, rest, rfl, hrest, by rw [htail]; rfl, rfl⟩

/-- The pieces of a source together are the source. -/
theorem flatMap_text_cut (cs : List Char) : (cut 0 cs).flatMap text = cs := by
  generalize hps : cut 0 cs = ps
  induction ps generalizing cs with
  | nil =>
      cases cs with
      | nil => rfl
      | cons c cs => simp [cut] at hps
  | cons p ps ih =>
      obtain ⟨c, text, rest, htext, rfl, -, hrest⟩ := cut_eq_cons hps
      rw [List.flatMap_cons, htext, ih rest hrest]
      rfl

/--
**A row of complete pieces stays what it is** when the source behind it is cut off, or
goes on with a line break.
-/
theorem cut_local {ps : List Piece} {cs rest rest' : List Char}
    (hcut : cut 0 (cs ++ rest) = ps ++ cut 0 rest) (hcs : ps.flatMap text = cs)
    (hlegal : ∀ p ∈ ps, ∀ flaw, p.kind ≠ .token (.illegal flaw))
    (hword : rest.head?.any leadsLikeWord = true → rest.head?.any isNamePart = true)
    (hpoint : ∀ qs, qs <:+ ps → qs.flatMap text = ['.'] → rest.head? ≠ some '.')
    (hbreak : ∀ d ∈ rest'.head?, isLineBreak d = true) :
    cut 0 (cs ++ rest') = ps ++ cut 0 rest' := by
  have hparted : Parted rest' := by
    intro d hd
    have := hbreak d hd
    simp only [isLineBreak, Bool.or_eq_true, beq_iff_eq] at this
    rcases this with rfl | rfl <;> decide
  induction ps generalizing cs with
  | nil => subst hcs; rfl
  | cons p ps ih =>
      obtain ⟨c, text, after, htext, hsrc, hp, hafter⟩ := cut_eq_cons hcut
      generalize hmid : ps.flatMap Piece.text = mid
      obtain rfl : c :: (text ++ mid) = cs := by
        rw [← hcs, List.flatMap_cons, hmid, htext]
        rfl
      obtain rfl : mid ++ rest = after := by
        simpa using hsrc
      have hfirst : first c (text ++ mid ++ rest') = p := by
        rw [← List.append_assoc] at hp
        have hfits : c :: (text ++ mid) = (first c (text ++ mid ++ rest)).text ++ mid := by
          rw [hp, htext]; rfl
        rw [← hp]
        refine first_local hfits ?_ hword ?_ hparted fun _ => hbreak
        · rw [hp]; exact hlegal p (by simp)
        · exact fun h => hpoint ps (List.suffix_cons p ps) (hmid.trans h)
      have hrow := ih hafter hmid (fun q hq => hlegal q (by simp [hq]))
        fun qs hqs => hpoint qs (hqs.trans (List.suffix_cons p ps))
      have hsplit : c :: (text ++ mid ++ rest') =
          (first c (text ++ mid ++ rest')).text ++ (mid ++ rest') := by
        rw [hfirst, htext]; simp
      rw [List.cons_append, cut_cons hsplit (by rw [hfirst, htext]; simp), hfirst, hrow]
      rfl

end Piece

end GoGloss
