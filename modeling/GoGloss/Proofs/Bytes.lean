import GoGloss.Span

/-!
# Cutting a text at known bytes

Offsets count bytes and texts are lists of characters, so every statement about
offsets comes down to one situation: a text is written `pre ++ mid ++ rest`, and
an offset is the size of what stands before it. Then the offset is a boundary
between characters, and cutting there gives back the parts.
-/

namespace GoGloss

@[simp]
theorem byteSize_nil : byteSize [] = 0 := rfl

@[simp]
theorem byteSize_cons (c : Char) (cs : List Char) :
    byteSize (c :: cs) = c.utf8Size + byteSize cs := rfl

@[simp]
theorem byteSize_append (a b : List Char) : byteSize (a ++ b) = byteSize a + byteSize b := by
  induction a with
  | nil => simp
  | cons c a ih => simp only [List.cons_append, byteSize_cons, ih]; omega

theorem byteSize_pos {cs : List Char} (h : cs ≠ []) : 0 < byteSize cs := by
  cases cs with
  | nil => exact absurd rfl h
  | cons c cs =>
      have := c.utf8Size_pos
      simp only [byteSize_cons]; omega

/-- The size of a text is the size of the string it is. -/
theorem byteSize_toList (s : String) : byteSize s.toList = s.utf8ByteSize := by
  have h : ∀ cs : List Char, byteSize cs = (String.ofList cs).utf8ByteSize := by
    intro cs
    induction cs with
    | nil => rfl
    | cons c cs ih =>
        rw [String.ofList_cons, String.utf8ByteSize_append, ← ih, byteSize_cons]
        simp
  rw [h, String.ofList_toList]

theorem dropBytes?_cons {n : Nat} (c : Char) (cs : List Char) (h : 0 < n) :
    dropBytes? n (c :: cs) =
      if c.utf8Size ≤ n then dropBytes? (n - c.utf8Size) cs else none := by
  cases n with
  | zero => exact absurd h (Nat.lt_irrefl 0)
  | succ n => rfl

theorem takeBytes?_cons {n : Nat} (c : Char) (cs : List Char) (h : 0 < n) :
    takeBytes? n (c :: cs) =
      if c.utf8Size ≤ n then (takeBytes? (n - c.utf8Size) cs).map (c :: ·) else none := by
  cases n with
  | zero => exact absurd h (Nat.lt_irrefl 0)
  | succ n => rfl

/-- Dropping the bytes of what stands in front leaves the rest. -/
theorem dropBytes?_byteSize (pre rest : List Char) :
    dropBytes? (byteSize pre) (pre ++ rest) = some rest := by
  induction pre with
  | nil => cases rest <;> rfl
  | cons c pre ih =>
      have hc := c.utf8Size_pos
      rw [byteSize_cons, List.cons_append, dropBytes?_cons c _ (by omega), if_pos (by omega),
        Nat.add_sub_cancel_left, ih]

/-- Taking as many bytes as a text in front has gives that text. -/
theorem takeBytes?_byteSize (mid rest : List Char) :
    takeBytes? (byteSize mid) (mid ++ rest) = some mid := by
  induction mid with
  | nil => cases rest <;> rfl
  | cons c mid ih =>
      have hc := c.utf8Size_pos
      rw [byteSize_cons, List.cons_append, takeBytes?_cons c _ (by omega), if_pos (by omega),
        Nat.add_sub_cancel_left, ih, Option.map_some]

/-- The slice between two boundaries is what stands between them. -/
theorem slice?_byteSize (pre mid rest : List Char) :
    slice? (pre ++ (mid ++ rest)) (byteSize pre) (byteSize pre + byteSize mid) = some mid := by
  rw [slice?, if_pos (by omega), dropBytes?_byteSize, Option.bind_some, Nat.add_sub_cancel_left,
    takeBytes?_byteSize]

theorem takeBytes?_eq_some {n : Nat} {cs w : List Char} (h : takeBytes? n cs = some w) :
    ∃ r, cs = w ++ r ∧ byteSize w = n := by
  induction w generalizing n cs with
  | nil =>
    refine ⟨cs, rfl, ?_⟩
    match n, cs, h with
    | 0, _, _ => rfl
    | n + 1, c :: cs, h => simp [takeBytes?] at h
  | cons d w ih =>
    match n, cs, h with
    | 0, _, h => simp [takeBytes?] at h
    | n + 1, c :: cs, h =>
      rw [takeBytes?] at h
      split at h
      · rename_i hle
        obtain ⟨v, hv, heq⟩ := Option.map_eq_some_iff.mp h
        obtain ⟨rfl, rfl⟩ := List.cons.inj heq
        obtain ⟨r, rfl, hsize⟩ := ih hv
        refine ⟨r, rfl, ?_⟩
        rw [byteSize_cons, hsize]
        omega
      · cases h

/-- The stretch of a source between two places, of which the first is known. -/
theorem slice?_append_eq_some {before cs w : List Char} {stop : Nat}
    (h : slice? (before ++ cs) (byteSize before) stop = some w) :
    ∃ r, cs = w ++ r ∧ stop = byteSize before + byteSize w := by
  rw [slice?] at h
  split at h
  · rename_i hle
    rw [dropBytes?_byteSize, Option.bind_some] at h
    obtain ⟨r, hr, hsize⟩ := takeBytes?_eq_some h
    exact ⟨r, hr, by omega⟩
  · cases h

end GoGloss
