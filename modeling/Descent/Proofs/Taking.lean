/-
# What a pattern takes

A pattern is matched at a cursor by cutting off as many bytes as it may need and
comparing them.  Said without bytes, it describes some texts (`Describes`), and a
match is a text that it describes at the head of what follows the cursor:

| pattern | describes |
| --- | --- |
| `literal t` | `t` |
| `literalNoCase t` | the texts that are `t` once ASCII letters are small |
| `character c` | `c` |
| `between lo hi`, `satisfying p` | one character, in the range or with the property |
| `terminal t` | what `t` describes: one character of a range, the characters with given numbers, or a text |

`matchAt_eq_true_iff` is this correspondence for every pattern and every cursor,
and `Describes.unique` says that at one place a pattern takes one text at most.

A pattern that does not stand at the cursor leaves it where it was (`matchAt_eq_false`).
One attempt of a cursor passes a text or stays, so this needs an argument for a
sequence of numbers alone.  It stops behind the characters that were there, in the
same input, and goes back to where the first one was asked for.
-/

import Descent.Pattern
import Descent.Span

namespace Descent

namespace Text

/-- Making a letter small does not change the number of its bytes. -/
theorem utf8Size_toLower (c : Char) : c.toLower.utf8Size = c.utf8Size := by
  unfold Char.toLower
  split
  · rename_i h
    have hup : c.val.toNat ≤ 90 := h.2
    have hsum : (c.val + ('a'.val - 'A'.val)).toNat = c.val.toNat + 32 := by
      have h32 : ('a'.val - 'A'.val).toNat = 32 := by decide
      rw [UInt32.toNat_add, h32]
      omega
    have hsmall : c.val ≤ 127 := UInt32.le_iff_toNat_le.2 (by
      have : (127 : UInt32).toNat = 127 := rfl
      omega)
    have hlower : c.val + ('a'.val - 'A'.val) ≤ 127 := UInt32.le_iff_toNat_le.2 (by
      have : (127 : UInt32).toNat = 127 := rfl
      omega)
    rw [Char.utf8Size_eq_one_iff.2 hlower, Char.utf8Size_eq_one_iff.2 hsmall]
  · rfl

theorem byteLength_map_toLower (t : Text) : byteLength (t.map Char.toLower) = byteLength t := by
  induction t with
  | nil => rfl
  | cons c t ih => rw [List.map_cons, byteLength_cons, byteLength_cons, ih, utf8Size_toLower]

end Text

namespace Cursor

/-- **A step forward.**  The text `taken` stands at `c`, and `c'` is the place after it. -/
structure Takes (c : Cursor) (taken : Text) (c' : Cursor) : Prop where
  input : c'.input = c.input
  rest : c.rest = taken ++ c'.rest
  offset : c'.offset = c.offset + taken.byteLength

theorem Takes.refl (c : Cursor) : c.Takes [] c := ⟨rfl, rfl, rfl⟩

theorem Takes.trans {c c' c'' : Cursor} {a b : Text} (h : c.Takes a c') (h' : c'.Takes b c'') :
    c.Takes (a ++ b) c'' where
  input := h'.input.trans h.input
  rest := by rw [h.rest, h'.rest, List.append_assoc]
  offset := by rw [h'.offset, h.offset, Text.byteLength_append, Nat.add_assoc]

/-- The text that is taken settles where the step ends. -/
theorem Takes.unique {c c' c'' : Cursor} {taken : Text} (h : c.Takes taken c')
    (h' : c.Takes taken c'') : c' = c'' := by
  obtain ⟨input', offset', rest'⟩ := c'
  obtain ⟨input'', offset'', rest''⟩ := c''
  obtain rfl : input' = input'' := h.input.trans h'.input.symm
  obtain rfl : offset' = offset'' := h.offset.trans h'.offset.symm
  obtain rfl : rest' = rest'' := List.append_cancel_left (h.rest.symm.trans h'.rest)
  rfl

theorem Takes.offset_le {c c' : Cursor} {taken : Text} (h : c.Takes taken c') :
    c.offset ≤ c'.offset := by
  rw [h.offset]
  omega

/-- A step that does not advance the offset takes nothing. -/
theorem Takes.eq_nil {c c' : Cursor} {taken : Text} (h : c.Takes taken c')
    (hoff : c'.offset = c.offset) : taken = [] := by
  have hlen := h.offset
  exact Text.byteLength_eq_zero.1 (by omega)

/-- What follows the cursor can be cut into `taken` and the rest in one step. -/
theorem exists_takes {c : Cursor} {taken rest : Text} (h : c.rest = taken ++ rest) :
    ∃ c', c.Takes taken c' ∧ c'.rest = rest :=
  ⟨⟨c.input, c.offset + taken.byteLength, rest⟩, ⟨rfl, h, rfl⟩, rfl⟩

/-- What follows the cursor is what follows its offset in the input, so the offset is a place
between two characters. -/
def Sound (c : Cursor) : Prop := c.input.drop? c.offset = some c.rest

theorem sound_start (input : Text) : (start input).Sound := Text.drop?_zero input

theorem sound_of_startingAt {input : Text} {offset : Nat} {c : Cursor}
    (h : startingAt input offset = .ok c) : c.Sound ∧ c.input = input ∧ c.offset = offset := by
  unfold startingAt at h
  split at h
  · rename_i rest hrest
    obtain rfl := Except.ok.inj h
    exact ⟨hrest, rfl, rfl⟩
  · cases h

/-- A step forward from a sound cursor passes the slice of the input between the two offsets. -/
theorem Takes.slice? {c c' : Cursor} {taken : Text} (hc : c.Sound) (h : c.Takes taken c') :
    c'.input.slice? c.offset c'.offset = some taken := by
  obtain ⟨before, hinput, hlen⟩ := Text.drop?_eq_some_iff.1 hc
  rw [h.rest, ← h.input] at hinput
  exact Text.slice?_eq_some_iff.2 ⟨before, c'.rest, hinput, hlen, h.offset.symm⟩

theorem Takes.text {c c' : Cursor} {taken : Text} (hc : c.Sound) (h : c.Takes taken c') :
    (⟨c'.input, c.offset, c'.offset⟩ : Span).text = taken := by
  unfold Span.text Span.text?
  rw [h.slice? hc, Option.getD_some]

theorem Takes.sound {c c' : Cursor} {taken : Text} (hc : c.Sound) (h : c.Takes taken c') :
    c'.Sound := by
  obtain ⟨before, hinput, hlen⟩ := Text.drop?_eq_some_iff.1 hc
  refine Text.drop?_eq_some_iff.2 ⟨before ++ taken, ?_, ?_⟩
  · rw [h.input, hinput, h.rest, List.append_assoc]
  · rw [Text.byteLength_append, hlen, h.offset]

theorem advance?_eq_some_iff {c c' : Cursor} {bytes : Nat} :
    c.advance? bytes = some c' ↔ ∃ taken, taken.byteLength = bytes ∧ c.Takes taken c' := by
  unfold advance?
  rw [Option.map_eq_some_iff]
  constructor
  · rintro ⟨rest, hrest, rfl⟩
    obtain ⟨taken, htaken, hlen⟩ := Text.drop?_eq_some_iff.1 hrest
    exact ⟨taken, hlen, rfl, htaken, by rw [hlen]⟩
  · rintro ⟨taken, hlen, h⟩
    refine ⟨c'.rest, Text.drop?_eq_some_iff.2 ⟨taken, h.rest, hlen⟩, ?_⟩
    rw [← h.input, ← hlen, ← h.offset]

/-- A comparison that only holds of texts of one length need not look at the length. -/
theorem pastText_eq_true_iff {agree : Text → Text → Bool} {c c' : Cursor} {t : Text}
    (hagree : ∀ found, agree found t → found.byteLength = t.byteLength) :
    c.pastText agree t = (true, c') ↔ ∃ taken, agree taken t ∧ c.Takes taken c' := by
  unfold pastText
  constructor
  · intro h
    split at h
    · rename_i found next hfound hnext
      split at h
      · rename_i hyes
        obtain rfl := (Prod.mk.inj h).2
        obtain ⟨rest, hrest, hlen⟩ := Text.take?_eq_some_iff.1 hfound
        obtain ⟨taken, htaken, hc⟩ := advance?_eq_some_iff.1 hnext
        obtain ⟨rfl, -⟩ := Text.append_inj_of_byteLength (hrest.symm.trans hc.rest)
          (hlen.trans htaken.symm)
        exact ⟨found, hyes, hc⟩
      · cases h
    · cases h
  · rintro ⟨taken, hyes, hc⟩
    have hlen := hagree taken hyes
    rw [Text.take?_eq_some_iff.2 ⟨c'.rest, hc.rest, hlen⟩,
      advance?_eq_some_iff.2 ⟨taken, hlen, hc⟩]
    simp only [hyes, if_true]

/-- What does not stand at the cursor leaves it where it was. -/
theorem pastText_eq_false {agree : Text → Text → Bool} {c c' : Cursor} {t : Text}
    (h : c.pastText agree t = (false, c')) : c' = c := by
  unfold pastText at h
  split at h
  · split at h
    · cases h
    · exact (Prod.mk.inj h).2.symm
  · exact (Prod.mk.inj h).2.symm

theorem literal_eq_true_iff {c c' : Cursor} {t : Text} :
    c.literal t = (true, c') ↔ c.Takes t c' := by
  unfold literal
  rw [pastText_eq_true_iff fun found h => by rw [eq_of_beq h]]
  constructor
  · rintro ⟨taken, h, hc⟩
    exact eq_of_beq h ▸ hc
  · exact fun hc => ⟨t, beq_self_eq_true t, hc⟩

theorem equalIgnoringCase_iff {a b : Text} :
    equalIgnoringCase a b = true ↔ a.map Char.toLower = b.map Char.toLower := by
  unfold equalIgnoringCase
  exact beq_iff_eq

theorem literalNoCase_eq_true_iff {c c' : Cursor} {t : Text} :
    c.literalNoCase t = (true, c') ↔
      ∃ taken, taken.map Char.toLower = t.map Char.toLower ∧ c.Takes taken c' := by
  unfold literalNoCase
  rw [pastText_eq_true_iff fun found h => by
    rw [← Text.byteLength_map_toLower, equalIgnoringCase_iff.1 h, Text.byteLength_map_toLower]]
  simp only [equalIgnoringCase_iff]

theorem character_eq_true_iff {c c' : Cursor} {p : Char → Bool} :
    c.character p = (true, c') ↔ ∃ x, p x ∧ c.Takes [x] c' := by
  unfold character
  constructor
  · intro h
    split at h
    · rename_i x rest hrest
      split at h
      · rename_i hp
        obtain rfl := (Prod.mk.inj h).2
        exact ⟨x, hp, rfl, hrest, rfl⟩
      · cases h
    · cases h
  · rintro ⟨x, hp, hc⟩
    rw [hc.rest]
    simp only [List.singleton_append, hp, if_true]
    obtain ⟨input, offset, rest⟩ := c'
    obtain rfl : input = c.input := hc.input
    obtain rfl : offset = c.offset + x.utf8Size := hc.offset
    rfl

/-- A next character that does not satisfy the predicate is not passed. -/
theorem character_eq_false {c c' : Cursor} {p : Char → Bool}
    (h : c.character p = (false, c')) : c' = c := by
  unfold character at h
  split at h
  · split at h
    · cases h
    · exact (Prod.mk.inj h).2.symm
  · exact (Prod.mk.inj h).2.symm

/-- Going back within one input gives the earlier cursor. -/
theorem restore_eq {c earlier : Cursor} (h : c.input = earlier.input) :
    c.restore earlier = earlier := by
  rw [restore, h]

end Cursor

namespace Notation.Terminal

/-- The texts that a terminal stands for. -/
def Describes : Terminal → Text → Prop
  | range _ lo hi, taken => ∃ x, taken = [x] ∧ lo ≤ x.val ∧ x.val ≤ hi
  | values _ numbers, taken => taken.map Char.val = numbers
  | quoted text true, taken => taken = text
  | quoted text false, taken => taken.map Char.toLower = text.map Char.toLower

end Notation.Terminal

namespace Pattern

/-- The texts that a pattern stands for. -/
def Describes : Pattern → Text → Prop
  | literal t, taken => taken = t
  | literalNoCase t, taken => taken.map Char.toLower = t.map Char.toLower
  | character c, taken => taken = [c]
  | between lo hi, taken => ∃ x, taken = [x] ∧ lo ≤ x ∧ x ≤ hi
  | satisfying p, taken => ∃ x, taken = [x] ∧ p x
  | terminal t, taken => t.Describes taken

/-- The characters with given numbers are taken one by one. -/
theorem numbersAt_eq_true_iff {start c c' : Cursor} {numbers : List UInt32} :
    numbersAt start c numbers = (true, c') ↔
      ∃ taken, taken.map Char.val = numbers ∧ c.Takes taken c' := by
  induction numbers generalizing c with
  | nil =>
    simp only [numbersAt, Prod.mk.injEq, true_and, List.map_eq_nil_iff]
    constructor
    · rintro rfl
      exact ⟨[], rfl, Cursor.Takes.refl c⟩
    · rintro ⟨taken, rfl, hc⟩
      exact (Cursor.Takes.refl c).unique hc
  | cons n numbers ih =>
    constructor
    · intro h
      rw [numbersAt] at h
      split at h
      · rename_i next hnext
        obtain ⟨x, hx, hone⟩ := Cursor.character_eq_true_iff.1 hnext
        obtain ⟨taken, htaken, hc⟩ := ih.1 h
        exact ⟨x :: taken, by rw [List.map_cons, eq_of_beq hx, htaken], hone.trans hc⟩
      · cases h
    · rintro ⟨taken, htaken, hc⟩
      obtain ⟨x, taken, rfl, hx, hrest⟩ := List.map_eq_cons_iff.1 htaken
      have hhead : c.rest = [x] ++ (taken ++ c'.rest) := hc.rest
      obtain ⟨next, hone, -⟩ := Cursor.exists_takes hhead
      have hnext : c.character (·.val == n) = (true, next) :=
        Cursor.character_eq_true_iff.2 ⟨x, beq_iff_eq.2 hx, hone⟩
      have hcut : next.rest = taken ++ c'.rest :=
        List.append_cancel_left (hone.rest.symm.trans hc.rest)
      rw [numbersAt, hnext]
      refine ih.2 ⟨taken, hrest, hc.input.trans hone.input.symm, hcut, ?_⟩
      rw [hc.offset, hone.offset]
      simp [Nat.add_assoc]

/-- **A sequence that breaks off gives back what it took.** -/
theorem numbersAt_eq_false {start c c' : Cursor} {numbers : List UInt32}
    (hinput : c.input = start.input) (h : numbersAt start c numbers = (false, c')) :
    c' = start := by
  -- going back keeps the input, so the induction carries that it is the one of `start`
  induction numbers generalizing c with
  | nil => cases h
  | cons n numbers ih =>
    rw [numbersAt] at h
    split at h
    · rename_i next hnext
      obtain ⟨x, -, hone⟩ := Cursor.character_eq_true_iff.1 hnext
      exact ih (hone.input.trans hinput) h
    · rename_i next hnext
      obtain rfl := Cursor.character_eq_false hnext
      rw [← (Prod.mk.inj h).2, Cursor.restore_eq hinput]

/-- One character with a property, as a text that is taken. -/
theorem character_eq_true_iff_singleton {c c' : Cursor} {p : Char → Bool} :
    c.character p = (true, c') ↔ ∃ taken, (∃ x, taken = [x] ∧ p x) ∧ c.Takes taken c' := by
  rw [Cursor.character_eq_true_iff]
  constructor
  · rintro ⟨x, hx, hc⟩
    exact ⟨[x], ⟨x, rfl, hx⟩, hc⟩
  · rintro ⟨taken, ⟨x, rfl, hx⟩, hc⟩
    exact ⟨x, hx, hc⟩

theorem terminalAt_eq_true_iff {c c' : Cursor} {t : Notation.Terminal} :
    terminalAt c t = (true, c') ↔ ∃ taken, t.Describes taken ∧ c.Takes taken c' := by
  cases t with
  | range base lo hi =>
    rw [terminalAt, character_eq_true_iff_singleton]
    simp only [Notation.Terminal.Describes, Bool.and_eq_true, decide_eq_true_eq]
  | values base numbers => exact numbersAt_eq_true_iff
  | quoted text caseSensitive =>
    cases caseSensitive with
    | true =>
      rw [terminalAt, Cursor.literal_eq_true_iff]
      simp only [Notation.Terminal.Describes, exists_eq_left]
    | false => exact Cursor.literalNoCase_eq_true_iff

theorem terminalAt_eq_false {c c' : Cursor} {t : Notation.Terminal}
    (h : terminalAt c t = (false, c')) : c' = c := by
  cases t with
  | range base lo hi => exact Cursor.character_eq_false h
  | values base numbers => exact numbersAt_eq_false rfl h
  | quoted text caseSensitive => cases caseSensitive <;> exact Cursor.pastText_eq_false h

/-- **A match is a described text at the cursor.**  Comparing bytes takes exactly the texts
that the pattern describes, and a cursor past one of them is the only one that is left. -/
theorem matchAt_eq_true_iff {p : Pattern} {c c' : Cursor} :
    p.matchAt c = (true, c') ↔ ∃ taken, p.Describes taken ∧ c.Takes taken c' := by
  cases p with
  | literal t =>
    rw [matchAt, Cursor.literal_eq_true_iff]
    simp only [Describes, exists_eq_left]
  | literalNoCase t => exact Cursor.literalNoCase_eq_true_iff
  | character x =>
    rw [matchAt, character_eq_true_iff_singleton]
    simp only [Describes, beq_iff_eq, exists_eq_right]
  | between lo hi =>
    rw [matchAt, character_eq_true_iff_singleton]
    simp only [Describes, Bool.and_eq_true, decide_eq_true_eq]
  | satisfying q => exact character_eq_true_iff_singleton
  | terminal t => exact terminalAt_eq_true_iff

/-- **A mismatch leaves the cursor where it was.** -/
theorem matchAt_eq_false {p : Pattern} {c c' : Cursor} (h : p.matchAt c = (false, c')) :
    c' = c := by
  cases p with
  | literal t => exact Cursor.pastText_eq_false h
  | literalNoCase t => exact Cursor.pastText_eq_false h
  | character x => exact Cursor.character_eq_false h
  | between lo hi => exact Cursor.character_eq_false h
  | satisfying q => exact Cursor.character_eq_false h
  | terminal t => exact terminalAt_eq_false h

/-- The cursor past a match, and otherwise the one before, are all that an attempt leaves. -/
theorem matchAt_eq (p : Pattern) (c : Cursor) :
    p.matchAt c = ((p.match? c).isSome, (p.match? c).getD c) := by
  unfold match?
  rcases h : p.matchAt c with ⟨_ | _, next⟩
  · rw [matchAt_eq_false h]
    rfl
  · rfl

theorem match?_eq_some_iff_matchAt {p : Pattern} {c c' : Cursor} :
    p.match? c = some c' ↔ p.matchAt c = (true, c') := by
  rw [matchAt_eq]
  cases p.match? c <;> simp

theorem match?_eq_none_iff_matchAt {p : Pattern} {c : Cursor} :
    p.match? c = none ↔ p.matchAt c = (false, c) := by
  rw [matchAt_eq]
  cases p.match? c <;> simp

theorem match?_eq_some_iff {p : Pattern} {c c' : Cursor} :
    p.match? c = some c' ↔ ∃ taken, p.Describes taken ∧ c.Takes taken c' :=
  match?_eq_some_iff_matchAt.trans matchAt_eq_true_iff

theorem match?_eq_none_iff {p : Pattern} {c : Cursor} :
    p.match? c = none ↔ ∀ taken rest, c.rest = taken ++ rest → ¬ p.Describes taken := by
  constructor
  · intro h taken rest hrest hp
    obtain ⟨c', hc, -⟩ := Cursor.exists_takes hrest
    rw [match?_eq_some_iff.2 ⟨taken, hp, hc⟩] at h
    cases h
  · intro h
    refine Option.eq_none_iff_forall_ne_some.2 fun c' hc' => ?_
    obtain ⟨taken, hp, hc⟩ := match?_eq_some_iff.1 hc'
    exact h taken c'.rest hc.rest hp

/-- **There is a mismatch just when nothing that the pattern describes is at the head** of what
follows the cursor. -/
theorem matchAt_eq_false_iff {p : Pattern} {c c' : Cursor} :
    p.matchAt c = (false, c') ↔
      c' = c ∧ ∀ taken rest, c.rest = taken ++ rest → ¬ p.Describes taken := by
  rw [← match?_eq_none_iff, match?_eq_none_iff_matchAt]
  constructor
  · intro h
    obtain rfl := matchAt_eq_false h
    exact ⟨rfl, h⟩
  · rintro ⟨rfl, h⟩
    exact h

/-- **At one place a pattern takes one text at most.** -/
theorem Describes.unique {p : Pattern} {a a' b b' : Text} (ha : p.Describes a)
    (ha' : p.Describes a') (h : a ++ b = a' ++ b') : a = a' := by
  have hrest : (Cursor.start (a ++ b)).rest = a ++ b := rfl
  obtain ⟨c, hc, -⟩ := Cursor.exists_takes hrest
  obtain ⟨c', hc', -⟩ := Cursor.exists_takes (hrest.trans h)
  have hsame : some c = some c' := by
    rw [← match?_eq_some_iff.2 ⟨a, ha, hc⟩, ← match?_eq_some_iff.2 ⟨a', ha', hc'⟩]
  obtain rfl := Option.some.inj hsame
  have hlen := hc.offset.symm.trans hc'.offset
  exact (Text.append_inj_of_byteLength h (by omega)).1

end Pattern
end Descent
