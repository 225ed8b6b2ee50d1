import GoGloss.Proofs.Bare
import GoGloss.Proofs.Interfaces
import GoGloss.Proofs.Locality

/-!
# Data types are said without ambiguity

The words for a data type can be read back in one way only. A type is told by the
word it starts with and by what stands behind that word, where it matters what can
stand behind a whole type: nothing, a closing parenthesis, or ` to ` and the value
type of a map.

The words ` to ` also belong to pointers, so a type named `pointer` would spoil this:
`map of map of pointer to pointer to a to b` would be said of two types.
-/

namespace GoGloss

open Piece

/-- The texts of names. -/
structure IsNameText (s : String) : Prop where
  start : s.toList.head?.any isNameStart = true
  parts : s.toList.all isNamePart = true

/-- The texts that go on like a name after a digit; those of all integers are among them. -/
structure IsNumberText (s : String) : Prop where
  start : s.toList.head?.any Char.isDigit = true
  parts : s.toList.all isNamePart = true

/--
Types of data: names other than `pointer`, members of packages, and pointers, slices,
arrays, maps and channels of data, with any parentheses. The length of an array is a
name or an integer.
-/
inductive DataType : Expr → Prop where
  | ident {n : Name} : IsNameText n.text → n.text ≠ "pointer" → DataType (.ident n)
  | selector {span : Span} {n member : Name} : IsNameText n.text → IsNameText member.text →
      DataType (.selector span (.ident n) member)
  | paren {span lparen rparen : Span} {x : Expr} : DataType x →
      DataType (.paren span lparen x rparen)
  | star {span pos : Span} {x : Expr} : DataType x → DataType (.star span pos x)
  | slice {span : Span} {x : Expr} : DataType x → DataType (.arrayType span none x)
  | arrayNamed {span : Span} {n : Name} {x : Expr} : IsNameText n.text → DataType x →
      DataType (.arrayType span (some (.ident n)) x)
  | arrayCounted {span : Span} {l : Literal} {x : Expr} : l.kind = .int → IsNumberText l.text →
      DataType x → DataType (.arrayType span (some (.literal l)) x)
  | map {span : Span} {key value : Expr} : DataType key → DataType value →
      DataType (.mapType span key value)
  | chan {span : Span} {dir : ChanDir} {x : Expr} : DataType x → DataType (.chanType span dir x)

/-- What stands behind a data type inside the words for another one. -/
inductive Tail : List Char → Prop where
  | done : Tail []
  | close {k : List Char} : Tail k → Tail (')' :: k)
  | value {x : Expr} {k : List Char} : DataType x → Tail k →
      Tail (' ' :: 't' :: 'o' :: ' ' :: (x.english.toList ++ k))

/-- The word for an array, and what stands between it and the element type. -/
def arrayOpening : Option Expr → List Char × List Char
  | none => ("slice".toList, " of ".toList)
  | some length => (length.english.toList, "-element array of ".toList)

/-- The word for a channel, and what stands between it and the element type. -/
def chanOpening : ChanDir → List Char × List Char
  | .both => ("chan".toList, [' '])
  | .send => ("chan".toList, "<- ".toList)
  | .receive => ([], "<-chan ".toList)

/-- How a data type in front of `k` starts: with a word, and what stands behind the word. -/
def opening (k : List Char) : Expr → List Char × List Char
  | .ident n => (n.text.toList, k)
  | .selector _ x member => (x.english.toList, '.' :: (member.text.toList ++ k))
  | .paren _ _ x _ => ([], '(' :: (x.english.toList ++ ')' :: k))
  | .star _ _ x => ("pointer".toList, " to ".toList ++ (x.english.toList ++ k))
  | .arrayType _ length x =>
    ((arrayOpening length).1, (arrayOpening length).2 ++ (x.english.toList ++ k))
  | .mapType _ key value =>
    ("map".toList, " of ".toList ++
      (key.english.toList ++ ' ' :: 't' :: 'o' :: ' ' :: (value.english.toList ++ k)))
  | .chanType _ dir x => ((chanOpening dir).1, (chanOpening dir).2 ++ (x.english.toList ++ k))
  | _ => ([], [])

@[simp]
theorem Expr.english_ident (n : Name) : (Expr.ident n).english = n.text := by
  simp [Expr.english, Expr.write]

@[simp]
theorem Expr.english_literal (l : Literal) : (Expr.literal l).english = l.text := by
  simp [Expr.english, Expr.write]

theorem Tail.stops {k : List Char} (hk : Tail k) : k.head?.any isNamePart = false := by
  cases hk <;> rfl

section Opening

variable {t : Expr} (ht : DataType t) (k : List Char)
include ht

theorem DataType.opening_append : (opening k t).1 ++ (opening k t).2 = t.english.toList ++ k := by
  rw [Expr.english]
  cases ht with
  | @chan _ dir =>
    cases dir <;> simp only [Expr.write, ChanDir.text] <;>
      simp [opening, chanOpening, Expr.write_eq]
  | _ => simp only [Expr.write]; simp [opening, arrayOpening, Expr.write_eq]

theorem DataType.opening_parts : (opening k t).1.all isNamePart = true := by
  cases ht with
  | ident hn => exact hn.parts
  | selector hn => simpa only [opening, Expr.english_ident] using hn.parts
  | arrayNamed hn => simpa only [opening, arrayOpening, Expr.english_ident] using hn.parts
  | arrayCounted _ hl => simpa only [opening, arrayOpening, Expr.english_literal] using hl.parts
  | @chan _ dir => cases dir <;> rfl
  | paren | star | slice | map => rfl

theorem DataType.opening_stops {k : List Char} (hk : Tail k) :
    (opening k t).2.head?.any isNamePart = false := by
  cases ht with
  | ident => exact hk.stops
  | @chan _ dir => cases dir <;> rfl
  | _ => rfl

end Opening

/-- Where a word ends is told by what is behind it. -/
theorem word_append_inj {w w' r r' : List Char} (hw : w.all isNamePart = true)
    (hw' : w'.all isNamePart = true) (hr : r.head?.any isNamePart = false)
    (hr' : r'.head?.any isNamePart = false) (h : w ++ r = w' ++ r') : w = w' ∧ r = r' := by
  have hstop : ∀ {r : List Char}, r.head?.any isNamePart = false → r.takeWhile isNamePart = [] := by
    intro r hr
    cases r <;> simp_all
  have htake := congrArg (List.takeWhile isNamePart) h
  rw [List.takeWhile_append_of_pos (List.all_eq_true.mp hw),
    List.takeWhile_append_of_pos (List.all_eq_true.mp hw'), hstop hr, hstop hr',
    List.append_nil, List.append_nil] at htake
  exact ⟨htake, List.append_cancel_left (htake ▸ h)⟩

variable {t u : Expr} {k l : List Char}

/-- Types that are said alike start alike. -/
theorem DataType.opening_eq (ht : DataType t) (hu : DataType u) (hk : Tail k) (hl : Tail l)
    (h : t.english.toList ++ k = u.english.toList ++ l) :
    (opening k t).1 = (opening l u).1 ∧ (opening k t).2 = (opening l u).2 := by
  rw [← ht.opening_append, ← hu.opening_append] at h
  exact word_append_inj (ht.opening_parts k) (hu.opening_parts l) (ht.opening_stops hk)
    (hu.opening_stops hl) h

/-- A blank and a type are not what stands behind a type. -/
theorem Tail.ne_blank_append (ht : DataType t) (hk : Tail k) (hl : Tail l) :
    l ≠ ' ' :: (t.english.toList ++ k) := by
  -- both would have to go on with the word `to` for ever
  induction hn : l.length using Nat.strong_induction_on generalizing t k l with
  | _ n ih =>
    intro h
    cases hl with
    | done | close => simp at h
    | @value u l hu hl =>
      have htext : t.english.toList ++ k = ['t', 'o'] ++ ' ' :: (u.english.toList ++ l) :=
        (List.cons.inj h).2.symm
      obtain ⟨hword, hrest⟩ := word_append_inj (ht.opening_parts k) (by rfl)
        (ht.opening_stops hk) (by rfl) ((ht.opening_append k).trans htext)
      have hlen : k.length < n := by
        rw [← hn, h]
        simp only [List.length_cons, List.length_append]
        omega
      cases ht with
      | ident => exact ih k.length hlen hu hl hk rfl hrest
      | @chan _ dir => cases dir <;> simp [opening, chanOpening] at hword hrest
      | _ => simp [opening, arrayOpening] at hword hrest

/-- The forms of data types. -/
inductive Form where
  | name | member | paren | pointer | slice | array | map
  | chan (dir : ChanDir)

/-- The form of a data type. -/
def form : Expr → Form
  | .ident _ => .name
  | .selector .. => .member
  | .paren .. => .paren
  | .star .. => .pointer
  | .arrayType _ length _ => if length.isNone then .slice else .array
  | .mapType .. => .map
  | .chanType _ dir _ => .chan dir
  | _ => .name

/-- What is said like a name is a name. -/
theorem DataType.form_eq_name {n : Name} (hn : IsNameText n.text) (hne : n.text ≠ "pointer")
    (hu : DataType u) (hk : Tail k) (hl : Tail l)
    (h : (Expr.ident n).english.toList ++ k = u.english.toList ++ l) : form u = .name := by
  obtain ⟨hword, hrest⟩ := DataType.opening_eq (.ident hn hne) hu hk hl h
  have hnonempty : n.text.toList ≠ [] := by
    intro hnil
    have hstart := hn.start
    rw [hnil] at hstart
    exact absurd hstart (by decide)
  cases hu with
  | ident => rfl
  | paren => exact absurd hword hnonempty
  | star => exact absurd (String.toList_inj.mp hword) hne
  | @chan _ dir x hx =>
    cases dir with
    | both => exact absurd hrest (Tail.ne_blank_append hx hl hk)
    | send => cases hk <;> simp [opening, chanOpening] at hrest
    | receive => exact absurd hword hnonempty
  | _ => cases hk <;> simp [opening, arrayOpening] at hrest

/-- Types that are said alike have one form. -/
theorem DataType.form_eq (ht : DataType t) (hu : DataType u) (hk : Tail k) (hl : Tail l)
    (h : t.english.toList ++ k = u.english.toList ++ l) : form t = form u := by
  obtain ⟨hword, hrest⟩ := DataType.opening_eq ht hu hk hl h
  cases ht with
  | ident hn hne => exact (hu.form_eq_name hn hne hk hl h).symm
  | @chan _ dir x hx =>
    cases hu with
    | ident hm hne => exact DataType.form_eq_name hm hne (.chan hx) hl hk h.symm
    | @chan _ dir' => cases dir <;> cases dir' <;> simp [opening, chanOpening, form] at hword hrest ⊢
    | _ => cases dir <;> simp [opening, arrayOpening, chanOpening] at hword hrest
  | _ =>
    cases hu with
    | ident hm hne =>
      exact DataType.form_eq_name hm hne (by constructor <;> assumption) hl hk h.symm
    | @chan _ dir => cases dir <;> simp [opening, arrayOpening, chanOpening] at hword hrest
    | _ => simp [opening, arrayOpening, form] at hword hrest ⊢

theorem DataType.alike (ht : DataType t) (hu : DataType u) (hk : Tail k) (hl : Tail l)
    (h : t.english.toList ++ k = u.english.toList ++ l) :
    form t = form u ∧ (opening k t).1 = (opening l u).1 ∧ (opening k t).2 = (opening l u).2 :=
  ⟨ht.form_eq hu hk hl h, ht.opening_eq hu hk hl h⟩

theorem Name.bare_eq {n m : Name} (h : n.text.toList = m.text.toList) : n.bare = m.bare := by
  rw [Name.bare, Name.bare, String.toList_inj.mp h]

/-- No text is that of a name and that of a number. -/
theorem IsNameText.ne_number {s r : String} (hs : IsNameText s) (hr : IsNumberText r) :
    s.toList ≠ r.toList := by
  intro h
  obtain ⟨c, hc, hdigit⟩ : ∃ c, r.toList.head? = some c ∧ c.isDigit = true := by
    simpa [Option.any_eq_true] using hr.start
  have hstart := hs.start
  rw [h, hc, Option.any_some, isNameStart_of_isDigit hdigit] at hstart
  exact absurd hstart (by decide)

/-- From what is said a data type can be told, and where it ends. -/
theorem DataType.bare_eq (ht : DataType t) (hu : DataType u) (hk : Tail k) (hl : Tail l)
    (h : t.english.toList ++ k = u.english.toList ++ l) : t.bare = u.bare ∧ k = l := by
  -- by what `alike` says, `u` has the form of `t`, and its parts are said like those of `t`
  induction ht generalizing u k l with
  | ident hn hne =>
    obtain ⟨hform, hword, hrest⟩ := (DataType.ident hn hne).alike hu hk hl h
    cases hu with
    | ident => exact ⟨congrArg Expr.ident (Name.bare_eq hword), hrest⟩
    | _ => cases hform
  | selector hn hmember =>
    obtain ⟨hform, hword, hrest⟩ := (DataType.selector hn hmember).alike hu hk hl h
    cases hu with
    | selector _ hmember' =>
      obtain ⟨htext, hk⟩ := word_append_inj hmember.parts hmember'.parts hk.stops hl.stops
        (List.cons.inj hrest).2
      simp only [opening, Expr.english_ident] at hword
      exact ⟨by simp only [Expr.bare, Name.bare_eq hword, Name.bare_eq htext], hk⟩
    | _ => cases hform
  | paren hx ih =>
    obtain ⟨hform, -, hrest⟩ := (DataType.paren hx).alike hu hk hl h
    cases hu with
    | paren hy =>
      obtain ⟨hbare, hk⟩ := ih hy (.close hk) (.close hl) (List.cons.inj hrest).2
      exact ⟨by rw [Expr.bare, Expr.bare, hbare], (List.cons.inj hk).2⟩
    | _ => cases hform
  | star hx ih =>
    obtain ⟨hform, -, hrest⟩ := (DataType.star hx).alike hu hk hl h
    cases hu with
    | star hy =>
      obtain ⟨hbare, hk⟩ := ih hy hk hl (List.append_cancel_left hrest)
      exact ⟨by rw [Expr.bare, Expr.bare, hbare], hk⟩
    | _ => cases hform
  | slice hx ih =>
    obtain ⟨hform, -, hrest⟩ := (DataType.slice hx).alike hu hk hl h
    cases hu with
    | slice hy =>
      obtain ⟨hbare, hk⟩ := ih hy hk hl (List.append_cancel_left hrest)
      exact ⟨by rw [Expr.bare, Expr.bare, hbare], hk⟩
    | _ => cases hform
  | arrayNamed hn hx ih =>
    obtain ⟨hform, hword, hrest⟩ := (DataType.arrayNamed hn hx).alike hu hk hl h
    cases hu with
    | arrayNamed hm hy =>
      simp only [opening, arrayOpening, Expr.english_ident] at hword
      obtain ⟨hbare, hk⟩ := ih hy hk hl (List.append_cancel_left hrest)
      exact ⟨by simp only [Expr.bare, Expr.bareOption, Name.bare_eq hword, hbare], hk⟩
    | arrayCounted _ hl =>
      simp only [opening, arrayOpening, Expr.english_ident, Expr.english_literal] at hword
      exact absurd hword (hn.ne_number hl)
    | _ => cases hform
  | arrayCounted hkind hlength hx ih =>
    obtain ⟨hform, hword, hrest⟩ := (DataType.arrayCounted hkind hlength hx).alike hu hk hl h
    cases hu with
    | arrayNamed hm =>
      simp only [opening, arrayOpening, Expr.english_ident, Expr.english_literal] at hword
      exact absurd hword.symm (hm.ne_number hlength)
    | arrayCounted hkind' _ hy =>
      simp only [opening, arrayOpening, Expr.english_literal] at hword
      obtain ⟨hbare, hk⟩ := ih hy hk hl (List.append_cancel_left hrest)
      refine ⟨?_, hk⟩
      simp only [Expr.bare, Expr.bareOption, Literal.bare, hkind, hkind', hbare,
        String.toList_inj.mp hword]
    | _ => cases hform
  | map hkey hvalue ihkey ihvalue =>
    obtain ⟨hform, -, hrest⟩ := (DataType.map hkey hvalue).alike hu hk hl h
    cases hu with
    | map hkey' hvalue' =>
      obtain ⟨hbare, htail⟩ := ihkey hkey' (.value hvalue hk) (.value hvalue' hl)
        (List.append_cancel_left hrest)
      obtain ⟨hbare', hk⟩ := ihvalue hvalue' hk hl
        (List.append_cancel_left (show [' ', 't', 'o', ' '] ++ _ = _ ++ _ from htail))
      exact ⟨by rw [Expr.bare, Expr.bare, hbare, hbare'], hk⟩
    | _ => cases hform
  | @chan _ dir x hx ih =>
    obtain ⟨hform, -, hrest⟩ := (DataType.chan hx).alike hu hk hl h
    cases hu with
    | chan hy =>
      cases hform
      obtain ⟨hbare, hk⟩ := ih hy hk hl (List.append_cancel_left hrest)
      exact ⟨by rw [Expr.bare, Expr.bare, hbare], hk⟩
    | _ => cases hform

/--
Data types are said without ambiguity: two of them that are said in the same words are
the same type, up to where they were read.
-/
theorem bare_eq_of_english_eq (ht : DataType t) (hu : DataType u) (h : t.english = u.english) :
    t.bare = u.bare :=
  (ht.bare_eq hu .done .done (by rw [h])).1

theorem bare_eq_of_english_eq_map :
    (Expr.mapType ⟨0, 8⟩ (.star ⟨4, 6⟩ ⟨4, 5⟩ (.ident ⟨"a", ⟨5, 6⟩⟩)) (.ident ⟨"b", ⟨7, 8⟩⟩)).bare =
      (Expr.mapType ⟨1, 12⟩ (.star ⟨6, 8⟩ ⟨6, 7⟩ (.ident ⟨"a", ⟨7, 8⟩⟩))
        (.ident ⟨"b", ⟨11, 12⟩⟩)).bare := by
  have hname : ∀ {s : String}, s = "a" ∨ s = "b" → IsNameText s := by
    rintro s (rfl | rfl) <;> exact ⟨by rfl, by rfl⟩
  exact bare_eq_of_english_eq
    (.map (.star (.ident (hname (.inl rfl)) (by decide))) (.ident (hname (.inr rfl)) (by decide)))
    (.map (.star (.ident (hname (.inl rfl)) (by decide))) (.ident (hname (.inr rfl)) (by decide)))
    rfl

/-- With a type named `pointer` two maps are said alike. -/
example (a b : Name) :
    (Expr.mapType default (.mapType default (.ident ⟨"pointer", default⟩)
      (.star default default (.ident a))) (.ident b)).english =
    (Expr.mapType default (.mapType default (.star default default (.ident ⟨"pointer", default⟩))
      (.ident a)) (.ident b)).english := by
  simp [Expr.english, Expr.write, String.append_assoc]

end GoGloss
