import Mathlib.Data.List.Basic
import GoGloss.Proofs.Layout
import GoGloss.Proofs.Locality

/-!
# The grammar of strings and runes

A string is any number of elements between double quotes, and a rune is one element
between single quotes. An element is a character on its own or an escape:

    escaped_char     = `\` ( "a" | "b" | "f" | "n" | "r" | "t" | "v" | `\` | quote ) .
    octal_byte_value = `\` octal_digit octal_digit octal_digit .
    hex_byte_value   = `\` "x" hex_digit hex_digit .
    little_u_value   = `\` "u" hex_digit hex_digit hex_digit hex_digit .
    big_u_value      = `\` "U" hex_digit hex_digit hex_digit hex_digit
                               hex_digit hex_digit hex_digit hex_digit .

The lexer does not follow these rules. It first looks for the end of the literal and
takes every backslash together with the one character after it, whatever that is.
Afterwards it goes through the escapes once more, and then an escape is as long as its
form asks. The main statement is that the two come to the same as the grammar.
-/

namespace GoGloss

open Character

namespace Quoted

/-! ## The rules -/

/-- The escapes of a literal between two `quote`s. -/
inductive Escape (quote : Char) : List Char → Prop where
  | letter {c : Char} (hc : c ∈ ['a', 'b', 'f', 'n', 'r', 't', 'v', '\\']) : Escape quote ['\\', c]
  | quote : Escape quote ['\\', quote]
  /-- The value is that of a byte. -/
  | octal {a b c : Char} (hdigits : ∀ d ∈ [a, b, c], isOctal d = true)
    (hbyte : 64 * hexValue a + 8 * hexValue b + hexValue c ≤ 255) : Escape quote ['\\', a, b, c]
  | hex {a b : Char} (hdigits : ∀ d ∈ [a, b], isHex d = true) : Escape quote ['\\', 'x', a, b]
  /-- Four or eight digits are the number of a character. -/
  | unicode {u : Char} {ds : List Char} (hu : u = 'u' ∧ ds.length = 4 ∨ u = 'U' ∧ ds.length = 8)
    (hdigits : ∀ d ∈ ds, isHex d = true) (hscalar : ∃ c : Char, digitsValue 16 ds = c.toNat) :
    Escape quote ('\\' :: u :: ds)

/-- What stands between two `quote`s: a character on its own, or an escape. -/
inductive Element (quote : Char) : List Char → Prop where
  | plain {c : Char} (hquote : c ≠ quote) (hbackslash : c ≠ '\\') (hlf : c ≠ '\n')
    (hcr : c ≠ '\r') : Element quote [c]
  | escape {w : List Char} (h : Escape quote w) : Element quote w

end Quoted

/-- The strings of the language. -/
def IsString (text : List Char) : Prop :=
  ∃ elements : List (List Char), (∀ e ∈ elements, Quoted.Element '\x22' e) ∧
    text = '\x22' :: (elements.flatten ++ ['\x22'])

/-- The runes of the language. -/
def IsRune (text : List Char) : Prop :=
  ∃ e, Quoted.Element '\x27' e ∧ text = '\x27' :: (e ++ ['\x27'])

namespace Quoted

/-- The quotes that strings and runes are written with. -/
def IsQuote (c : Char) : Prop :=
  c = '\x22' ∨ c = '\x27'

/-! ## Digits -/

theorem isHex_of_isOctal {c : Char} (h : isOctal c = true) : isHex c = true := by
  simp only [isOctal, Bool.and_eq_true, decide_eq_true_eq] at h
  have hdigit : c.isDigit = true := by
    simp only [Char.isDigit, Bool.and_eq_true, decide_eq_true_eq]
    exact ⟨h.1, Nat.le_trans h.2 (by decide)⟩
  simp [isHex, hdigit]

/-- A digit is an item on its own. -/
theorem isPlain_of_isHex {quote c : Char} (hquote : IsQuote quote) (h : isHex c = true) :
    isPlain quote c = true := by
  have hne : ∀ d : Char, isHex d = false → c ≠ d := by
    rintro d hd rfl
    exact absurd h (by simp [hd])
  have hq : c ≠ quote := hne quote (by rcases hquote with rfl | rfl <;> decide)
  simp [isPlain, hq, hne '\\' (by decide), hne '\n' (by decide), hne '\r' (by decide)]

theorem digits?_eq_some {digit : Char → Bool} {n : Nat} {cs ds : List Char} :
    digits? digit n cs = some ds ↔
      ds.length = n ∧ (∀ d ∈ ds, digit d = true) ∧ ∃ rest, cs = ds ++ rest := by
  unfold digits?
  constructor
  · intro h
    split at h
    · rename_i hcond
      obtain rfl := Option.some.inj h
      simp only [Bool.and_eq_true, decide_eq_true_eq, List.all_eq_true] at hcond
      exact ⟨by simp [hcond.1], hcond.2, cs.drop n, (List.take_append_drop n cs).symm⟩
    · cases h
  · rintro ⟨rfl, hdigits, rest, rfl⟩
    rw [List.take_left, if_pos]
    simpa using hdigits

/-- The numbers of characters are the valid ones. -/
theorem isValidChar_iff {n : Nat} : n.isValidChar ↔ ∃ c : Char, n = c.toNat := by
  constructor
  · intro h
    exact ⟨Char.ofNatAux n h, rfl⟩
  · rintro ⟨c, rfl⟩
    exact c.valid

/-! ## One escape -/

/-- The letters of the short escapes are what the rule lists. -/
theorem isSimpleEscape_iff {c : Char} :
    isSimpleEscape c = true ↔ c ∈ ['a', 'b', 'f', 'n', 'r', 't', 'v', '\\'] := by
  unfold isSimpleEscape
  split <;> simp_all

/-- The length found for an escape is that of an escape of the grammar. -/
theorem Escape.of_escapeLength? {quote c : Char} {cs : List Char} {n : Nat}
    (h : escapeLength? quote c cs = some n) :
    ∃ ds rest, cs = ds ++ rest ∧ ds.length = n ∧ (∀ d ∈ ds, isHex d = true) ∧
      Escape quote ('\\' :: c :: ds) := by
  unfold escapeLength? at h
  split at h
  · rename_i hshort
    obtain rfl := Option.some.inj h
    refine ⟨[], cs, rfl, rfl, by simp, ?_⟩
    rcases Bool.or_eq_true _ _ |>.mp hshort with hletter | hquote
    · exact .letter (isSimpleEscape_iff.mp hletter)
    · obtain rfl : c = quote := by simpa using hquote
      exact .quote
  · split at h
    · rename_i hoctal
      obtain ⟨ds, hds, hvalue⟩ := Option.bind_eq_some_iff.mp h
      obtain ⟨hlength, hdigits, rest, rfl⟩ := digits?_eq_some.mp hds
      split at hvalue
      · rename_i hbyte
        obtain rfl := Option.some.inj hvalue
        obtain ⟨a, b, rfl⟩ := List.length_eq_two.mp hlength
        refine ⟨[a, b], rest, rfl, rfl, fun d hd => isHex_of_isOctal (hdigits d hd), .octal ?_ ?_⟩
        · exact List.forall_mem_cons.mpr ⟨hoctal, hdigits⟩
        · simp only [digitsValue, List.foldl_cons, List.foldl_nil] at hbyte
          omega
      · cases hvalue
    · obtain ⟨m, hm, hrest⟩ := Option.bind_eq_some_iff.mp h
      obtain ⟨ds, hds, hvalue⟩ := Option.bind_eq_some_iff.mp hrest
      obtain ⟨hlength, hdigits, rest, rfl⟩ := digits?_eq_some.mp hds
      split at hvalue
      · rename_i hscalar
        obtain rfl := Option.some.inj hvalue
        refine ⟨ds, rest, rfl, hlength, hdigits, ?_⟩
        unfold hexDigits? at hm
        split at hm
        · obtain rfl := Option.some.inj hm
          obtain ⟨a, b, rfl⟩ := List.length_eq_two.mp hlength
          exact .hex hdigits
        · obtain rfl := Option.some.inj hm
          exact .unicode (.inl ⟨rfl, hlength⟩) hdigits (isValidChar_iff.mp (by simpa using hscalar))
        · obtain rfl := Option.some.inj hm
          exact .unicode (.inr ⟨rfl, hlength⟩) hdigits (isValidChar_iff.mp (by simpa using hscalar))
        · cases hm
      · cases hvalue

/-- An escape of the grammar is a backslash, a character, and digits that are looked for. -/
theorem Escape.exists_digits {quote : Char} {w : List Char} (hquote : IsQuote quote)
    (h : Escape quote w) :
    ∃ c ds, w = '\\' :: c :: ds ∧ c ≠ '\n' ∧ (∀ d ∈ ds, isHex d = true) ∧
      ∀ rest, escapeLength? quote c (ds ++ rest) = some ds.length := by
  cases h with
  | @letter c hc =>
      have hne : c ≠ '\n' := by rintro rfl; simp at hc
      refine ⟨c, [], rfl, hne, by simp, fun rest => ?_⟩
      rw [escapeLength?, isSimpleEscape_iff.mpr hc]
      rfl
  | quote =>
      have hne : quote ≠ '\n' := by rcases hquote with rfl | rfl <;> decide
      refine ⟨quote, [], rfl, hne, by simp, fun rest => ?_⟩
      simp [escapeLength?]
  | @octal a b c hdigits hbyte =>
      simp only [List.forall_mem_cons] at hdigits
      obtain ⟨ha, hb, hc, -⟩ := hdigits
      have hne : ∀ d : Char, isOctal d = false → a ≠ d := by
        rintro d hd rfl
        exact absurd ha (by simp [hd])
      have hshort : (isSimpleEscape a || a = quote) = false := by
        have hq : a ≠ quote := hne quote (by rcases hquote with rfl | rfl <;> decide)
        have hletter : isSimpleEscape a = false := by
          rw [← Bool.not_eq_true, isSimpleEscape_iff]
          intro hmem
          simp only [List.mem_cons, List.not_mem_nil, or_false] at hmem
          rcases hmem with rfl | rfl | rfl | rfl | rfl | rfl | rfl | rfl <;> exact absurd ha (by decide)
        simp [hletter, hq]
      have hplain : ∀ d ∈ [b, c], isOctal d = true := by simp [hb, hc]
      refine ⟨a, [b, c], rfl, hne '\n' (by decide), ?_, fun rest => ?_⟩
      · exact fun d hd => isHex_of_isOctal (hplain d hd)
      · have hds : digits? isOctal 2 ([b, c] ++ rest) = some [b, c] :=
          digits?_eq_some.mpr ⟨rfl, hplain, rest, rfl⟩
        have hvalue : digitsValue 8 [a, b, c] ≤ 255 := by
          simp only [digitsValue, List.foldl_cons, List.foldl_nil]
          omega
        rw [escapeLength?, hshort, ha, hds]
        simp [hvalue]
  | @hex a b hdigits =>
      refine ⟨'x', [a, b], rfl, by decide, hdigits, fun rest => ?_⟩
      have hds : digits? isHex 2 ([a, b] ++ rest) = some [a, b] :=
        digits?_eq_some.mpr ⟨rfl, hdigits, rest, rfl⟩
      have hshort : (isSimpleEscape 'x' || 'x' = quote) = false := by
        rcases hquote with rfl | rfl <;> decide
      rw [escapeLength?, hshort, show isOctal 'x' = false by decide, hexDigits?]
      change ((digits? isHex 2 ([a, b] ++ rest)).bind fun _ => some 2) = some 2
      rw [hds]
      rfl
  | @unicode u ds hu hdigits hscalar =>
      have hvalue : (digitsValue 16 ds).isValidChar := isValidChar_iff.mpr hscalar
      have hds : ∀ rest, digits? isHex ds.length (ds ++ rest) = some ds :=
        fun rest => digits?_eq_some.mpr ⟨rfl, hdigits, rest, rfl⟩
      have hform : u ≠ '\n' ∧ (isSimpleEscape u || u = quote) = false ∧ isOctal u = false ∧
          hexDigits? u = some ds.length := by
        rcases hu with ⟨rfl, hlength⟩ | ⟨rfl, hlength⟩ <;> rw [hlength] <;>
          rcases hquote with rfl | rfl <;> decide
      obtain ⟨hne, hshort, hoctal, hcount⟩ := hform
      refine ⟨u, ds, rfl, hne, hdigits, fun rest => ?_⟩
      rw [escapeLength?, hshort, hoctal, hcount]
      simp [hds, hvalue]

/-! ## Many elements -/

section

variable {quote c : Char} {w cs rest : List Char}

/-- The items of a text that starts with an item on its own. -/
theorem items_plain (hc : isPlain quote c = true) :
    items quote (c :: cs) = (c :: (items quote cs).1, (items quote cs).2) := by
  have hbackslash : c ≠ '\\' := by rintro rfl; simp [isPlain] at hc
  rw [items]
  · rw [if_pos hc]
  · rintro d ds rfl
    exact absurd rfl hbackslash

theorem items_append_plain (hw : ∀ c ∈ w, isPlain quote c = true) :
    items quote (w ++ cs) = (w ++ (items quote cs).1, (items quote cs).2) := by
  induction w with
  | nil => rfl
  | cons c w ih =>
      rw [List.forall_mem_cons] at hw
      rw [List.cons_append, items_plain hw.1, ih hw.2]
      rfl

theorem wellEscaped_append_plain (hw : ∀ c ∈ w, isPlain quote c = true) :
    wellEscaped quote (w ++ cs) = wellEscaped quote cs := by
  induction w with
  | nil => rfl
  | cons c w ih =>
      rw [List.forall_mem_cons] at hw
      have hbackslash : c ≠ '\\' := by
        rintro rfl
        simp [isPlain] at hw
      rw [List.cons_append, wellEscaped, ih hw.2]
      · simp [hbackslash]
      · rintro d ds rfl
        exact absurd rfl hbackslash

/-- An element is made of items, the digits of an escape being some of them. -/
theorem Element.items_append (hquote : IsQuote quote) (h : Element quote w) :
    items quote (w ++ cs) = (w ++ (items quote cs).1, (items quote cs).2) := by
  cases h with
  | @plain c hq hbackslash hlf hcr =>
      exact items_append_plain (by simp [isPlain, hq, hbackslash, hlf, hcr])
  | escape h =>
      obtain ⟨c, ds, rfl, hlf, hdigits, -⟩ := h.exists_digits hquote
      have hplain : ∀ d ∈ ds, isPlain quote d = true :=
        fun d hd => isPlain_of_isHex hquote (hdigits d hd)
      rw [List.cons_append, List.cons_append, items, if_neg hlf, items_append_plain hplain]
      rfl

theorem Element.wellEscaped_append (hquote : IsQuote quote) (h : Element quote w) :
    wellEscaped quote (w ++ cs) = wellEscaped quote cs := by
  cases h with
  | @plain c hq hbackslash hlf hcr =>
      exact wellEscaped_append_plain (by simp [isPlain, hq, hbackslash, hlf, hcr])
  | escape h =>
      obtain ⟨c, ds, rfl, hlf, hdigits, hlength⟩ := h.exists_digits hquote
      have hplain : ∀ d ∈ ds, isPlain quote d = true :=
        fun d hd => isPlain_of_isHex hquote (hdigits d hd)
      rw [List.cons_append, List.cons_append, wellEscaped, hlength,
        wellEscaped_append_plain hplain]
      rfl

/-- A quote is no item. -/
theorem items_quote (hquote : IsQuote quote) :
    items quote (quote :: cs) = ([], quote :: cs) := by
  rw [items]
  · simp [isPlain]
  · rintro d ds rfl
    rcases hquote with hq | hq <;> exact absurd hq (by decide)

/-- Elements end where the quote after them stands, and their escapes are found. -/
theorem items_elements {elements : List (List Char)} (hquote : IsQuote quote)
    (h : ∀ e ∈ elements, Element quote e) :
    items quote (elements.flatten ++ quote :: cs) = (elements.flatten, quote :: cs) ∧
      wellEscaped quote elements.flatten = true := by
  induction elements with
  | nil => exact ⟨items_quote hquote, rfl⟩
  | cons e elements ih =>
      rw [List.forall_mem_cons] at h
      obtain ⟨hitems, hescaped⟩ := ih h.2
      rw [List.flatten_cons, List.append_assoc, h.1.items_append hquote, hitems,
        h.1.wellEscaped_append hquote]
      exact ⟨rfl, hescaped⟩

/-- The items of a literal whose escapes are found are elements. -/
theorem exists_elements {body : List Char} (hquote : IsQuote quote)
    (hitems : items quote cs = (body, rest)) (hescaped : wellEscaped quote body = true) :
    ∃ elements : List (List Char), (∀ e ∈ elements, Element quote e) ∧
      body = elements.flatten := by
  -- An escape takes as many characters as it is long, so the induction is on the length.
  induction hlength : body.length using Nat.strong_induction_on generalizing cs body with
  | _ n ih =>
  unfold items at hitems
  split at hitems
  · obtain rfl := (Prod.mk.inj hitems).1
    exact ⟨[], by simp, rfl⟩
  · split at hitems
    · obtain rfl := (Prod.mk.inj hitems).1
      exact ⟨[], by simp, rfl⟩
    · rename_i c cs hlf
      obtain ⟨rfl, rfl⟩ := Prod.mk.inj hitems
      rw [wellEscaped, Bool.and_eq_true] at hescaped
      obtain ⟨k, hk⟩ := Option.isSome_iff_exists.mp hescaped.1
      obtain ⟨ds, more, htaken, -, hdigits, hescape⟩ := Escape.of_escapeLength? hk
      have hplain : ∀ d ∈ ds, isPlain quote d = true :=
        fun d hd => isPlain_of_isHex hquote (hdigits d hd)
      -- The digits are items on their own, and so what follows them are the items there.
      have hcs := items_append quote cs
      rw [htaken, List.append_assoc] at hcs
      have hmore : items quote (more ++ (items quote cs).2) = (more, (items quote cs).2) := by
        have hsplit := @items_append_plain quote ds (more ++ (items quote cs).2) hplain
        rw [hcs] at hsplit
        have htail := congrArg Prod.fst hsplit
        rw [htaken] at htail
        exact Prod.ext (List.append_cancel_left htail).symm (congrArg Prod.snd hsplit).symm
      have hescaped' : wellEscaped quote more = true := by
        rw [← wellEscaped_append_plain hplain, ← htaken]
        exact hescaped.2
      have hlt : more.length < n := by
        rw [← hlength, htaken]
        simp only [List.length_cons, List.length_append]
        omega
      obtain ⟨elements, helements, rfl⟩ := ih more.length hlt hmore hescaped' rfl
      refine ⟨('\\' :: c :: ds) :: elements, ?_, ?_⟩
      · exact List.forall_mem_cons.mpr ⟨.escape hescape, helements⟩
      · rw [htaken]
        rfl
  · split at hitems
    · rename_i c cs hother hplain
      obtain ⟨rfl, rfl⟩ := Prod.mk.inj hitems
      have hescaped' : wellEscaped quote (items quote cs).1 = true := by
        rw [← wellEscaped_append_plain (w := [c]) (by simpa using hplain)]
        exact hescaped
      obtain ⟨elements, helements, hflatten⟩ :=
        ih (items quote cs).1.length (by simp [← hlength]) rfl hescaped' rfl
      have hc : Element quote [c] := by
        simp only [isPlain, Bool.and_eq_true, decide_eq_true_eq] at hplain
        exact .plain hplain.1.1.1 hplain.1.1.2 hplain.1.2 hplain.2
      refine ⟨[c] :: elements, List.forall_mem_cons.mpr ⟨hc, helements⟩, ?_⟩
      rw [List.flatten_cons, ← hflatten]
      rfl
    · obtain rfl := (Prod.mk.inj hitems).1
      exact ⟨[], by simp, rfl⟩

end

/-! ## Judging a complete literal -/

section

variable {quote : Char} {cs body : List Char} {text : String}

theorem stringToken_eq_literal_iff :
    stringToken quote body text = .literal .string text ↔ wellEscaped quote body = true := by
  rw [stringToken]
  split <;> simp_all

/-- The items of a rune are one element. -/
theorem runeToken_eq_literal_iff (hquote : IsQuote quote)
    (hitems : items quote (body ++ [quote]) = (body, [quote])) :
    runeToken quote body text = .literal .rune text ↔ Element quote body := by
  constructor
  · intro h
    unfold runeToken at h
    split at h
    · rename_i c
      -- A lone item is no backslash, since that would have the quote for its company.
      have hplain : isPlain quote c = true := by
        by_cases hbackslash : c = '\\'
        · subst hbackslash
          rw [List.singleton_append, items] at hitems
          split at hitems <;> simp at hitems
        · rw [List.singleton_append, items] at hitems
          · split at hitems
            · assumption
            · simp at hitems
          · rintro d ds rfl
            exact absurd rfl hbackslash
      simp only [isPlain, Bool.and_eq_true, decide_eq_true_eq] at hplain
      exact .plain hplain.1.1.1 hplain.1.1.2 hplain.1.2 hplain.2
    · rename_i c ds hone
      split at h
      · cases h
      · rename_i n hn
        split at h
        · rename_i hlength
          obtain ⟨ds', rest, rfl, hlength', -, hescape⟩ := Escape.of_escapeLength? hn
          obtain rfl : rest = [] := by
            rw [List.length_append, hlength'] at hlength
            exact List.length_eq_zero_iff.mp (by omega)
          rw [List.append_nil]
          exact .escape hescape
        · cases h
    · cases h
  · intro h
    cases h with
    | plain => rfl
    | escape h =>
        obtain ⟨c, ds, rfl, -, -, hlength⟩ := h.exists_digits hquote
        have hds := hlength []
        rw [List.append_nil] at hds
        simp [runeToken, hds]

end

end Quoted

/-! ## Whole sources -/

/-- The source is one literal, and nothing is complained about. -/
def IsLiteral (kind : LiteralKind) (src : String) : Prop :=
  tokenize src = [⟨0, src.utf8ByteSize, .literal kind src⟩, Lexeme.lineEnd src.utf8ByteSize] ∧
    lexicalDiagnostics (tokenize src) = []

namespace Piece

/-- The lexemes of a source that starts with a token. -/
theorem tokenize_of_first {c : Char} {cs : List Char} {t : Token}
    (hkind : (first c cs).kind = .token t) :
    ∃ rest, c :: cs = (first c cs).text ++ rest ∧
      tokenize (String.ofList (c :: cs)) = ⟨0, byteSize (first c cs).text, t⟩ ::
        Lexeme.ofPieces t.endsStatement (byteSize (first c cs).text) (cut 0 rest) := by
  obtain ⟨rest, hsplit, hfits⟩ := first_fits 0 c cs
  have htoken : (first c cs).token? 0 = some t := by rw [token?, hkind]
  refine ⟨rest, hsplit, ?_⟩
  rw [tokenize, ofSource, String.toList_ofList, cut_cons hsplit hfits.text_ne_nil,
    ofPieces_token _ htoken, Nat.zero_add]

/-- A source is one literal if that is the token it starts with and nothing is left. -/
theorem isLiteral_iff {kind : LiteralKind} {c : Char} {cs : List Char} {t : Token}
    (hkind : (first c cs).kind = .token t) :
    IsLiteral kind (String.ofList (c :: cs)) ↔
      (first c cs).text = c :: cs ∧ t = .literal kind (String.ofList (c :: cs)) := by
  obtain ⟨rest, hsplit, htokenize⟩ := tokenize_of_first hkind
  have hsize : (String.ofList (c :: cs)).utf8ByteSize = byteSize (c :: cs) := by
    rw [← byteSize_toList, String.toList_ofList]
  constructor
  · rintro ⟨hlexemes, -⟩
    rw [htokenize, hsize] at hlexemes
    obtain ⟨hlexeme, -⟩ := List.cons.inj hlexemes
    have hall : byteSize (first c cs).text = byteSize (c :: cs) := congrArg Lexeme.stop hlexeme
    have hrest : rest = [] := by
      rw [hsplit, byteSize_append] at hall
      cases rest with
      | nil => rfl
      | cons d rest =>
          have hpos := d.utf8Size_pos
          rw [byteSize_cons] at hall
          omega
    rw [hrest, List.append_nil] at hsplit
    exact ⟨hsplit.symm, congrArg Lexeme.token hlexeme⟩
  · rintro ⟨htext, rfl⟩
    have hrest : rest = [] := by
      rw [htext] at hsplit
      simpa using hsplit
    have hlexemes : tokenize (String.ofList (c :: cs)) =
        [⟨0, (String.ofList (c :: cs)).utf8ByteSize, .literal kind (String.ofList (c :: cs))⟩,
          Lexeme.lineEnd (String.ofList (c :: cs)).utf8ByteSize] := by
      rw [htokenize, htext, hsize, hrest]
      rfl
    refine ⟨hlexemes, ?_⟩
    rw [hlexemes]
    rfl

/-- A source is one quoted literal if its items end at its last character and are approved. -/
theorem isLiteral_quoted_iff {judge : Char → List Char → String → Token} {kind : LiteralKind}
    {quote : Char} {cs : List Char} (hfirst : first quote cs = quoted judge quote cs) :
    IsLiteral kind (String.ofList (quote :: cs)) ↔
      ∃ body, cs = body ++ [quote] ∧ Quoted.items quote cs = (body, [quote]) ∧
        judge quote body (String.ofList (quote :: cs)) =
          .literal kind (String.ofList (quote :: cs)) := by
  have happ := Quoted.items_append quote cs
  rcases hitems : Quoted.items quote cs with ⟨body, rest⟩
  rw [hitems] at happ
  by_cases hclose : rest.head? = some quote
  · obtain ⟨rest, rfl⟩ := List.head?_eq_some_iff.mp hclose
    have hpiece : first quote cs =
        ofToken (judge quote body (String.ofList (quote :: (body ++ [quote]))))
          (quote :: (body ++ [quote])) := by
      rw [hfirst, quoted, hitems]
      exact if_pos rfl
    rw [isLiteral_iff (congrArg Piece.kind hpiece), hpiece, ← happ]
    constructor
    · rintro ⟨htext, htoken⟩
      obtain rfl : rest = [] := by simpa [ofToken] using htext
      exact ⟨body, rfl, rfl, htoken⟩
    · rintro ⟨body', hbody, hsame, htoken⟩
      obtain ⟨rfl, hrest⟩ := Prod.mk.inj hsame
      obtain rfl : rest = [] := (List.cons.inj hrest).2
      exact ⟨rfl, htoken⟩
  · have hpiece : first quote cs = ofFlaw .invalidToken (quote :: body) := by
      rw [hfirst, quoted, hitems]
      exact if_neg hclose
    rw [isLiteral_iff (congrArg Piece.kind hpiece)]
    constructor
    · rintro ⟨-, htoken⟩
      cases htoken
    · rintro ⟨body', -, hsame, -⟩
      obtain ⟨-, rfl⟩ := Prod.mk.inj hsame
      exact absurd rfl hclose

end Piece

open Quoted

theorem isString_cons_iff {cs : List Char} :
    IsString ('\x22' :: cs) ↔ ∃ body, cs = body ++ ['\x22'] ∧
      items '\x22' cs = (body, ['\x22']) ∧ wellEscaped '\x22' body = true := by
  constructor
  · rintro ⟨elements, helements, htext⟩
    obtain rfl := (List.cons.inj htext).2
    exact ⟨elements.flatten, rfl, items_elements (.inl rfl) helements⟩
  · rintro ⟨body, rfl, hitems, hescaped⟩
    obtain ⟨elements, helements, rfl⟩ := exists_elements (.inl rfl) hitems hescaped
    exact ⟨elements, helements, rfl⟩

theorem isRune_cons_iff {cs : List Char} (text : String) :
    IsRune ('\x27' :: cs) ↔ ∃ body, cs = body ++ ['\x27'] ∧
      items '\x27' cs = (body, ['\x27']) ∧
      runeToken '\x27' body text = .literal .rune text := by
  constructor
  · rintro ⟨e, he, htext⟩
    obtain rfl := (List.cons.inj htext).2
    have hitems : items '\x27' (e ++ ['\x27']) = (e, ['\x27']) := by
      rw [he.items_append (.inr rfl), items_quote (.inr rfl), List.append_nil]
    exact ⟨e, rfl, hitems, (runeToken_eq_literal_iff (.inr rfl) hitems).mpr he⟩
  · rintro ⟨body, rfl, hitems, htoken⟩
    exact ⟨body, (runeToken_eq_literal_iff (.inr rfl) hitems).mp htoken, rfl⟩

/--
**Strings and runes.** A source that starts with a double quote is one string literal,
with nothing to complain about, if and only if it is a string of the grammar, and a
source that starts with a single quote is one rune if and only if it is a rune of the
grammar.
-/
theorem quoted_iff_grammar (cs : List Char) :
    (IsLiteral .string (String.ofList ('\x22' :: cs)) ↔ IsString ('\x22' :: cs)) ∧
    (IsLiteral .rune (String.ofList ('\x27' :: cs)) ↔ IsRune ('\x27' :: cs)) := by
  constructor
  · have hfirst : Piece.first '\x22' cs = Piece.quoted stringToken '\x22' cs := rfl
    rw [Piece.isLiteral_quoted_iff hfirst, isString_cons_iff]
    simp only [stringToken_eq_literal_iff]
  · rw [isRune_cons_iff (String.ofList ('\x27' :: cs))]
    have hfirst : Piece.first '\x27' cs = Piece.rune cs := rfl
    by_cases hempty : cs.head? = some '\x27'
    · -- Two quotes are no rune, and nothing between them is no element.
      obtain ⟨rest, rfl⟩ := List.head?_eq_some_iff.mp hempty
      have hpiece : Piece.first '\x27' ('\x27' :: rest) = Piece.ofFlaw .invalidToken ['\x27'] := by
        rw [hfirst, Piece.rune, if_pos hempty]
      rw [Piece.isLiteral_iff (congrArg Piece.kind hpiece)]
      constructor
      · rintro ⟨-, htoken⟩
        cases htoken
      · rintro ⟨body, -, hitems, htoken⟩
        rw [items_quote (.inr rfl)] at hitems
        obtain ⟨rfl, -⟩ := Prod.mk.inj hitems
        cases htoken
    · have hquoted : Piece.first '\x27' cs = Piece.quoted runeToken '\x27' cs := by
        rw [hfirst, Piece.rune, if_neg hempty]
      exact Piece.isLiteral_quoted_iff hquoted

end GoGloss
