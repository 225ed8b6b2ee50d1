import Mathlib.Data.Finset.Card
import Mathlib.Data.Finset.Dedup
import GoGloss.Symbols

/-!
# Numbers by first occurrence

A table of symbols never gives one text two numbers, and each bucket holds the
numbers of just the texts that share its hash value. Of such a table it does not
matter how the texts are spread over the buckets: a text is found at its own
number, or nowhere. So the number of a text counts the distinct texts that came
before its first occurrence, for any hash function at all.
-/

namespace GoGloss.Symbols

/-- No text has two numbers, and the buckets hold the numbers of the texts that hash to them. -/
structure Sound (t : Symbols) : Prop where
  nodup : t.texts.toList.Nodup
  mem_bucket (s : String) (n : Nat) :
    n ∈ t.bucket s ↔ ∃ u, t.texts.toList[n]? = some u ∧ t.hash u = t.hash s

theorem sound_withHash (hash : String → UInt64) : (withHash hash).Sound where
  nodup := List.nodup_nil
  mem_bucket s n := by simp [withHash, bucket]

section Step

variable {t : Symbols} (ht : t.Sound) (s : String)
include ht

/-- A text is found where it stands, whatever else is in its bucket. -/
theorem Sound.find?_eq (n : Nat) : t.find? s = some n ↔ t.texts.toList[n]? = some s := by
  have hget : ∀ m : Nat, (t.texts[m]? == some s) = true ↔ t.texts.toList[m]? = some s := by simp
  constructor
  · intro hfind
    exact (hget n).mp (by simpa using List.find?_some hfind)
  · intro hn
    have hmem : n ∈ t.bucket s := (ht.mem_bucket s n).mpr ⟨s, hn, rfl⟩
    obtain ⟨m, hm⟩ : ∃ m, t.find? s = some m :=
      Option.isSome_iff_exists.mp (List.find?_isSome.mpr ⟨n, hmem, (hget n).mpr hn⟩)
    have hms : t.texts.toList[m]? = some s := (hget m).mp (by simpa using List.find?_some hm)
    have hlt : m < t.texts.toList.length := (List.getElem?_eq_some_iff.mp hms).choose
    -- the two numbers name one text, and no text has two
    have heq : m = n := (List.getElem?_inj hlt ht.nodup).mp (hms.trans hn.symm)
    exact heq ▸ hm

theorem Sound.intern_of_mem (hs : s ∈ t.texts.toList) :
    t.intern s = (t.texts.toList.idxOf s, t) := by
  have hfind : t.find? s = some (t.texts.toList.idxOf s) :=
    (ht.find?_eq s _).mpr (List.getElem?_idxOf hs)
  rw [intern, hfind]

theorem Sound.intern_of_notMem (hs : s ∉ t.texts.toList) :
    t.intern s = (t.size, t.append s (t.hash s) (t.bucket s ++ [t.size])) := by
  have hfind : t.find? s = none := by
    rw [Option.eq_none_iff_forall_ne_some]
    intro n hn
    exact hs (List.mem_of_getElem? ((ht.find?_eq s n).mp hn))
  rw [intern, hfind]

/-- A new text at the end of the table and of its bucket. -/
theorem Sound.append (hs : s ∉ t.texts.toList) :
    (t.append s (t.hash s) (t.bucket s ++ [t.size])).Sound where
  nodup := by
    simp only [Symbols.append, Array.toList_push]
    exact List.nodup_append.mpr ⟨ht.nodup, List.nodup_singleton s,
      fun a ha b hb => by rintro rfl; exact hs (List.mem_singleton.mp hb ▸ ha)⟩
  mem_bucket u n := by
    have hold := ht.mem_bucket u n
    simp only [Symbols.append, bucket, Array.toList_push, Std.HashMap.getD_insert,
      List.getElem?_append, size, beq_iff_eq] at hold ⊢
    split
    · rename_i hkey
      rw [hkey, List.mem_append, hold]
      grind
    · rename_i hkey
      rw [hold]
      grind

end Step

theorem resolve_idxOf {t : Symbols} {s : String} (hs : s ∈ t.texts.toList) :
    t.resolve (t.texts.toList.idxOf s) = s := by
  rw [resolve, Array.getD_eq_getD_getElem?, ← Array.getElem?_toList, List.getElem?_idxOf hs,
    Option.getD_some]

/-- Interns some texts one after the other: their numbers, and the table at the end. -/
def internAll (t : Symbols) : List String → List Nat × Symbols
  | [] => ([], t)
  | s :: ss =>
    let (n, t) := t.intern s
    let (ns, t) := t.internAll ss
    (n :: ns, t)

/-- The table `t'` holds what `t` holds, where it was, and after it the new ones among `ss`. -/
structure Grows (t : Symbols) (ss : List String) (t' : Symbols) : Prop where
  sound : t'.Sound
  kept : t.texts.toList <+: t'.texts.toList
  mem_texts (s : String) : s ∈ t'.texts.toList ↔ s ∈ t.texts.toList ∨ s ∈ ss

theorem Grows.trans {t₁ t₂ t₃ : Symbols} {ss us : List String} (h : Grows t₁ ss t₂)
    (h' : Grows t₂ us t₃) : Grows t₁ (ss ++ us) t₃ where
  sound := h'.sound
  kept := h.kept.trans h'.kept
  mem_texts s := by rw [h'.mem_texts, h.mem_texts, List.mem_append, or_assoc]

/-- Each text has the place in the table that it has in every table grown from it. -/
theorem Grows.idxOf_eq {t t' : Symbols} {ss : List String} (h : Grows t ss t') {s : String}
    (hs : s ∈ t.texts.toList) : t'.texts.toList.idxOf s = t.texts.toList.idxOf s :=
  (h.kept.idxOf_eq_of_mem hs).symm

/-- One step: a text gets its place in the table, which grows by it if it is new. -/
theorem Sound.intern {t : Symbols} (ht : t.Sound) (s : String) :
    Grows t [s] (t.intern s).2 ∧ (t.intern s).1 = (t.intern s).2.texts.toList.idxOf s := by
  by_cases hs : s ∈ t.texts.toList
  · rw [ht.intern_of_mem s hs]
    exact ⟨⟨ht, List.prefix_rfl, by simp_all⟩, rfl⟩
  · rw [ht.intern_of_notMem s hs]
    refine ⟨⟨ht.append s hs, ?_, ?_⟩, ?_⟩
    · simp [Symbols.append]
    · simp [Symbols.append]
    · simp [Symbols.append, size, List.idxOf_append_of_notMem hs]

/-- A whole run: each text gets its place in the table at the end. -/
theorem Sound.internAll {t : Symbols} (ht : t.Sound) (ss : List String) :
    Grows t ss (t.internAll ss).2 ∧
      (t.internAll ss).1 = ss.map (t.internAll ss).2.texts.toList.idxOf := by
  induction ss generalizing t with
  | nil => exact ⟨⟨ht, List.prefix_rfl, by simp [Symbols.internAll]⟩, rfl⟩
  | cons s ss ih =>
    obtain ⟨hstep, hn⟩ := ht.intern s
    obtain ⟨hrun, hns⟩ := ih hstep.sound
    refine ⟨hstep.trans hrun, ?_⟩
    have hs : s ∈ (t.intern s).2.texts.toList := (hstep.mem_texts s).mpr (by simp)
    simp only [Symbols.internAll, List.map_cons]
    rw [hns, hn, hrun.idxOf_eq hs]

theorem internAll_append (t : Symbols) (ss us : List String) :
    t.internAll (ss ++ us) = ((t.internAll ss).1 ++ ((t.internAll ss).2.internAll us).1,
      ((t.internAll ss).2.internAll us).2) := by
  induction ss generalizing t with
  | nil => rfl
  | cons s ss ih => simp only [List.cons_append, internAll, ih]

section Run

variable (hash : String → UInt64) (ss : List String)

theorem grows_withHash : Grows (withHash hash) ss ((withHash hash).internAll ss).2 :=
  ((sound_withHash hash).internAll ss).1

/-- The table holds each of the texts once. -/
theorem size_internAll : ((withHash hash).internAll ss).2.size = ss.toFinset.card := by
  have hgrows := grows_withHash hash ss
  have hsame : ((withHash hash).internAll ss).2.texts.toList.toFinset = ss.toFinset := by
    ext s
    rw [List.mem_toFinset, List.mem_toFinset, hgrows.mem_texts]
    simp [withHash]
  rw [← hsame, List.toFinset_card_of_nodup hgrows.sound.nodup, size, Array.length_toList]

/-- A text's place in the table counts the distinct texts before its first occurrence. -/
theorem idxOf_internAll {s : String} (hs : s ∈ ss) :
    ((withHash hash).internAll ss).2.texts.toList.idxOf s =
      (ss.takeWhile (· ≠ s)).toFinset.card := by
  -- when `s` first comes, the table holds what comes before it, and `s` is put at its end
  obtain ⟨before, after, rfl, hnew⟩ := List.eq_append_cons_of_mem hs
  have hbefore : (before ++ s :: after).takeWhile (· ≠ s) = before := by
    rw [List.takeWhile_append_of_pos (by grind)]
    simp
  have hgrows := grows_withHash hash before
  have hnotMem : s ∉ ((withHash hash).internAll before).2.texts.toList := by
    rw [hgrows.mem_texts]
    simpa [withHash] using hnew
  obtain ⟨hstep, hnumber⟩ := hgrows.sound.intern s
  rw [hgrows.sound.intern_of_notMem s hnotMem] at hnumber
  have hrun := (hstep.sound.internAll after).1
  rw [internAll_append, internAll, hrun.idxOf_eq ((hstep.mem_texts s).mpr (by simp)),
    hgrows.sound.intern_of_notMem s hnotMem, ← hnumber, size_internAll, hbefore]

end Run

/--
Interning numbers texts by first occurrence, whatever the hash function. In any
sequence of calls each text gets the number of distinct texts before its first
occurrence, so that two calls get one number exactly if their texts are equal.
After any later calls the numbers still stand for their texts, and the size is
the number of distinct texts.
-/
theorem internAll_by_first_occurrence (hash : String → UInt64) (ss later : List String) :
    ((withHash hash).internAll ss).1 = ss.map (fun s => (ss.takeWhile (· ≠ s)).toFinset.card) ∧
      (∀ i j : Nat, ((withHash hash).internAll ss).1[i]? = ((withHash hash).internAll ss).1[j]? ↔
        ss[i]? = ss[j]?) ∧
      ((withHash hash).internAll ss).1.map
        (((withHash hash).internAll ss).2.internAll later).2.resolve = ss ∧
      ((withHash hash).internAll ss).2.size = ss.toFinset.card ∧
      ∀ n ∈ ((withHash hash).internAll ss).1, n < ((withHash hash).internAll ss).2.size := by
  obtain ⟨hgrows, hnumbers⟩ := (sound_withHash hash).internAll ss
  have hlater := (hgrows.sound.internAll later).1
  have hmem : ∀ s ∈ ss, s ∈ ((withHash hash).internAll ss).2.texts.toList :=
    fun s hs => (hgrows.mem_texts s).mpr (.inr hs)
  refine ⟨?_, ?_, ?_, size_internAll hash ss, ?_⟩
  · rw [hnumbers]
    exact List.map_congr_left fun s hs => idxOf_internAll hash ss hs
  · intro i j
    rw [hnumbers, List.getElem?_map, List.getElem?_map]
    cases hi : ss[i]? with
    | none => cases ss[j]? <;> simp
    | some s =>
      cases ss[j]? with
      | none => simp
      | some u => simp [List.idxOf_inj (hmem s (List.mem_of_getElem? hi))]
  · calc _ = ss.map id := by
          rw [hnumbers, List.map_map]
          refine List.map_congr_left fun s hs => ?_
          have hs' := (hlater.mem_texts s).mpr (.inl (hmem s hs))
          rw [Function.comp_apply, ← hlater.idxOf_eq (hmem s hs), resolve_idxOf hs', id]
      _ = ss := List.map_id ss
  · rw [hnumbers]
    intro n hn
    obtain ⟨s, hs, rfl⟩ := List.mem_map.mp hn
    rw [size, ← Array.length_toList]
    exact List.idxOf_lt_length_of_mem (hmem s hs)

end GoGloss.Symbols
