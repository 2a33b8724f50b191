/-
# Which texts are notations of terminals

`Notates s t` says without a reader that the text `s` is written for the terminal `t`:

| terminal | written |
| --- | --- |
| `range base lo hi` | `%`, the letter of the base, a number, `-` and a number |
| `values base numbers` | `%`, the letter of the base, and the numbers with `.` between them |
| `quoted text caseSensitive` | a mark for the case or none, and the text between two quotes |

Letters of bases and marks may be small or large, and no quote stands inside a text.  A terminal
is read from its notations and from nothing else (`element_eq_ok_nil_iff`): the digits of a number
end before `-` and `.`, which are no digits, so a reader that takes as many as it can takes the
right ones; and what begins with a mark for the case begins with the letter of no base.  What is
read is accepted if it is `Sound`, and refused for the values it holds if it is not.
-/

import Descent.Notation.Terminal
import Descent.Proofs.Reading

namespace Descent
namespace Notation

open Text.Numeral (Spells isDigit)

namespace Base

theorem radix_le (base : Base) : base.radix ≤ 16 := by cases base <;> decide

theorem ofLetter?_eq_some_iff {c : Char} {base : Base} :
    ofLetter? c = some base ↔ c.toLower = base.letter := by
  unfold ofLetter?
  split <;> cases base <;> simp_all [letter]

end Base

namespace Terminal

/-- What stands before a quoted text to say whether the case of its letters counts. -/
inductive Mark : Text → Bool → Prop where
  | absent : Mark [] false
  | sensitive {c : Char} : c.toLower = 's' → Mark ['%', c] true
  | insensitive {c : Char} : c.toLower = 'i' → Mark ['%', c] false

/-- The text is a notation of the terminal. -/
inductive Notates : Text → Terminal → Prop where
  | range {base : Base} {letter : Char} {start stop : Text} {lo hi : UInt32} :
      letter.toLower = base.letter → Spells base.radix start lo.toNat →
      Spells base.radix stop hi.toNat →
      Notates ('%' :: letter :: (start ++ '-' :: stop)) (.range base lo hi)
  | values {base : Base} {letter : Char} {groups : List Text} {numbers : List UInt32} :
      letter.toLower = base.letter → groups ≠ [] →
      List.Forall₂ (fun digits n => Spells base.radix digits n.toNat) groups numbers →
      Notates ('%' :: letter :: ['.'].intercalate groups) (.values base numbers)
  | quoted {mark text : Text} {caseSensitive : Bool} :
      Mark mark caseSensitive → '"' ∉ text →
      Notates (mark ++ '"' :: (text ++ ['"'])) (.quoted text caseSensitive)

/-- The bounds of a range are in order, and the values of a sequence are numbers of characters. -/
def Sound : Terminal → Prop
  | .range _ lo hi => lo ≤ hi
  | .values _ numbers => ∀ n ∈ numbers, n.isValidChar
  | .quoted _ _ => True

instance : DecidablePred Sound
  | .range _ lo hi => inferInstanceAs (Decidable (lo ≤ hi))
  | .values _ numbers => List.decidableBAll UInt32.isValidChar numbers
  | .quoted _ _ => inferInstanceAs (Decidable True)

/-! ## Numbers -/

/-- **A number of 32 bits is read from all the digits at the head of a text.** -/
theorem numeral_eq_ok_iff {base : Base} {t rest : Text} {n : UInt32} :
    numeral base t = .ok (n, rest) ↔
      ∃ digits, t = digits ++ rest ∧ Spells base.radix digits n.toNat ∧
        ∀ c ∈ rest.head?, isDigit base.radix c = false := by
  rw [← number?_eq_some_iff base.radix_le]
  unfold numeral
  split
  · rename_i hnumber
    simp [hnumber]
  · rename_i m rest' hnumber
    rw [hnumber]
    split
    · rename_i hlt
      have hm : m.toUInt32.toNat = m := UInt32.toNat_ofNat_of_lt' hlt
      simp only [Except.ok.injEq, Prod.mk.injEq, Option.some.injEq, ← UInt32.toNat_inj, hm]
    · rename_i hge
      simp only [reduceCtorEq, Option.some.injEq, Prod.mk.injEq, false_iff, not_and]
      rintro rfl
      exact absurd n.toNat_lt hge

theorem malformed_of_numeral {base : Base} {t : Text} {e : Error} (h : numeral base t = .error e) :
    ∃ expected rest, e = .malformed expected rest := by
  unfold numeral at h
  split at h
  · exact ⟨_, _, (Except.error.inj h).symm⟩
  · split at h
    · cases h
    · exact ⟨_, _, (Except.error.inj h).symm⟩

theorem marked?_eq_some_iff {mark : Char} {base : Base} {t rest : Text} {n : UInt32} :
    marked? mark base t = some (n, rest) ↔
      ∃ digits, t = mark :: (digits ++ rest) ∧ Spells base.radix digits n.toNat ∧
        ∀ c ∈ rest.head?, isDigit base.radix c = false := by
  cases t with
  | nil => simp [marked?]
  | cons c t =>
    simp only [marked?, List.cons.injEq]
    split
    · rename_i hc
      have hok : (numeral base t).toOption = some (n, rest) ↔ numeral base t = .ok (n, rest) := by
        cases numeral base t <;> simp [Except.toOption]
      rw [hok, numeral_eq_ok_iff]
      simp [hc]
    · rename_i hc
      simp [hc]

theorem isDigit_hyphen (radix : Nat) : isDigit radix '-' = false := rfl

/-- All numbers but the first stand after a mark. -/
theorem intercalate_cons (digits : Text) (groups : List Text) :
    ['.'].intercalate (digits :: groups) = digits ++ groups.flatMap ('.' :: ·) := by
  induction groups generalizing digits with
  | nil => simp
  | cons next groups ih =>
    rw [List.intercalate_cons_cons, ih, List.flatMap_cons]
    simp

/-- What stands between or after numbers does not go on with a number. -/
theorem isDigit_head?_flatMap (radix : Nat) (groups : List Text) :
    ∀ c ∈ (groups.flatMap ('.' :: ·)).head?, isDigit radix c = false := by
  intro c hc
  cases groups with
  | nil => simp at hc
  | cons digits groups =>
    obtain rfl : '.' = c := by simpa using hc
    rfl

theorem further_sound {base : Base} {t rest : Text} {numbers : List UInt32}
    (h : further base t = (numbers, rest)) :
    ∃ groups : List Text, t = groups.flatMap ('.' :: ·) ++ rest ∧
      List.Forall₂ (fun digits n => Spells base.radix digits n.toNat) groups numbers := by
  fun_induction further base t generalizing numbers with
  | case1 t n t' hmarked numbers' rest' hfurther ih =>
    obtain ⟨rfl, rfl⟩ := Prod.mk.inj h
    obtain ⟨groups, rfl, hgroups⟩ := ih hfurther
    obtain ⟨digits, rfl, hdigits, -⟩ := marked?_eq_some_iff.1 hmarked
    exact ⟨digits :: groups, by simp, .cons hdigits hgroups⟩
  | case2 t hmarked =>
    obtain ⟨rfl, rfl⟩ := Prod.mk.inj h
    exact ⟨[], rfl, .nil⟩

theorem further_complete {base : Base} {groups : List Text} {numbers : List UInt32}
    (h : List.Forall₂ (fun digits n => Spells base.radix digits n.toNat) groups numbers) :
    further base (groups.flatMap ('.' :: ·)) = (numbers, []) := by
  induction h with
  | nil =>
    rw [further]
    rfl
  | @cons digits n groups numbers hdigits _ ih =>
    have hmarked : marked? '.' base ((digits :: groups).flatMap ('.' :: ·)) =
        some (n, groups.flatMap ('.' :: ·)) :=
      marked?_eq_some_iff.2 ⟨digits, rfl, hdigits, isDigit_head?_flatMap _ _⟩
    rw [further]
    split
    · rename_i n' rest' h'
      obtain ⟨rfl, rfl⟩ := Prod.mk.inj (Option.some.inj (h'.symm.trans hmarked))
      rw [ih]
    · rename_i h'
      cases h'.symm.trans hmarked

/-! ## The numeric form -/

theorem numeric_sound {s rest : Text} {t : Terminal} (h : numeric s = .ok (t, rest)) :
    ∃ written, s = written ++ rest ∧ Notates written t := by
  unfold numeric at h
  split at h
  · split at h
    · rename_i letter t'
      split at h
      · cases h
      · rename_i base hletter
        have hletter := Base.ofLetter?_eq_some_iff.1 hletter
        cases hnumeral : numeral base t' with
        | error e =>
          rw [hnumeral] at h
          cases h
        | ok found =>
          obtain ⟨first, after⟩ := found
          obtain ⟨digits, rfl, hdigits, -⟩ := numeral_eq_ok_iff.1 hnumeral
          simp only [hnumeral, bind, Except.bind] at h
          split at h
          · rename_i hi rest' hmarked
            obtain ⟨rfl, rfl⟩ := Prod.mk.inj (Except.ok.inj h)
            obtain ⟨digits', rfl, hdigits', -⟩ := marked?_eq_some_iff.1 hmarked
            exact ⟨_, by simp, .range hletter hdigits hdigits'⟩
          · obtain ⟨rfl, rfl⟩ := Prod.mk.inj (Except.ok.inj h)
            have hfurther : further base after = (_, _) := rfl
            obtain ⟨groups, hafter, hgroups⟩ := further_sound hfurther
            refine ⟨'%' :: letter :: ['.'].intercalate (digits :: groups), ?_,
              .values hletter (by simp) (.cons hdigits hgroups)⟩
            rw [intercalate_cons]
            simp only [List.cons_append, List.append_assoc]
            rw [← hafter]
    · cases h
  · cases h

theorem malformed_of_numeric {s : Text} {e : Error} (h : numeric s = .error e) :
    ∃ expected rest, e = .malformed expected rest := by
  unfold numeric at h
  split at h
  · split at h
    · rename_i letter t'
      split at h
      · exact ⟨_, _, (Except.error.inj h).symm⟩
      · rename_i base hletter
        cases hnumeral : numeral base t' with
        | error e' =>
          rw [hnumeral] at h
          obtain rfl : e' = e := Except.error.inj h
          exact malformed_of_numeral hnumeral
        | ok found =>
          simp only [hnumeral, bind, Except.bind] at h
          split at h <;> cases h
    · exact ⟨_, _, (Except.error.inj h).symm⟩
  · exact ⟨_, _, (Except.error.inj h).symm⟩

theorem numeric_range {base : Base} {letter : Char} {start stop : Text} {lo hi : UInt32}
    (hletter : letter.toLower = base.letter) (hlo : Spells base.radix start lo.toNat)
    (hhi : Spells base.radix stop hi.toNat) :
    numeric ('%' :: letter :: (start ++ '-' :: stop)) = .ok (range base lo hi, []) := by
  have hnumeral : numeral base (start ++ '-' :: stop) = .ok (lo, '-' :: stop) :=
    numeral_eq_ok_iff.2 ⟨start, rfl, hlo, by simp [isDigit_hyphen]⟩
  have hmarked : marked? '-' base ('-' :: stop) = some (hi, []) :=
    marked?_eq_some_iff.2 ⟨stop, by simp, hhi, by simp⟩
  simp only [numeric, Base.ofLetter?_eq_some_iff.2 hletter, hnumeral, bind, Except.bind, hmarked]
  rfl

theorem numeric_values {base : Base} {letter : Char} {groups : List Text} {numbers : List UInt32}
    (hletter : letter.toLower = base.letter) (hne : groups ≠ [])
    (h : List.Forall₂ (fun digits n => Spells base.radix digits n.toNat) groups numbers) :
    numeric ('%' :: letter :: ['.'].intercalate groups) = .ok (values base numbers, []) := by
  cases h with
  | nil => exact absurd rfl hne
  | @cons digits first groups numbers hdigits hgroups =>
    have hnumeral : numeral base (['.'].intercalate (digits :: groups)) =
        .ok (first, groups.flatMap ('.' :: ·)) :=
      numeral_eq_ok_iff.2
        ⟨digits, intercalate_cons _ _, hdigits, isDigit_head?_flatMap _ _⟩
    have hmarked : marked? '-' base (groups.flatMap ('.' :: ·)) = none := by
      cases groups <;> rfl
    simp only [numeric, Base.ofLetter?_eq_some_iff.2 hletter, hnumeral, bind, Except.bind, hmarked,
      further_complete hgroups]
    rfl

/-! ## The quoted form -/

theorem caseMark_of_mark {mark : Text} {caseSensitive : Bool} (h : Mark mark caseSensitive)
    (t : Text) : caseMark (mark ++ '"' :: t) = (caseSensitive, '"' :: t) := by
  cases h with
  | absent => rfl
  | sensitive hc => simp [caseMark, hc]
  | insensitive hc => simp [caseMark, hc]

theorem mark_of_caseMark {s t : Text} {caseSensitive : Bool}
    (h : caseMark s = (caseSensitive, '"' :: t)) :
    ∃ mark, Mark mark caseSensitive ∧ s = mark ++ '"' :: t := by
  unfold caseMark at h
  split at h
  · rename_i c t'
    split at h
    · rename_i hc
      obtain ⟨rfl, rfl⟩ := Prod.mk.inj h
      exact ⟨_, .sensitive hc, rfl⟩
    · split at h
      · rename_i hc
        obtain ⟨rfl, rfl⟩ := Prod.mk.inj h
        exact ⟨_, .insensitive hc, rfl⟩
      · cases (Prod.mk.inj h).2
  · obtain ⟨rfl, rfl⟩ := Prod.mk.inj h
    exact ⟨[], .absent, rfl⟩

/-- **A quoted text is read up to the first quote after it.** -/
theorem quotation?_eq_some_iff {s rest : Text} {t : Terminal} :
    quotation? s = some (t, rest) ↔
      ∃ mark text caseSensitive, Mark mark caseSensitive ∧ '"' ∉ text ∧
        t = quoted text caseSensitive ∧ s = mark ++ '"' :: (text ++ '"' :: rest) := by
  constructor
  · intro h
    unfold quotation? at h
    split at h
    · rename_i caseSensitive t' hcase
      obtain ⟨mark, hmark, rfl⟩ := mark_of_caseMark hcase
      split at h
      · rename_i quote rest' hdrop
        obtain ⟨rfl, rfl⟩ := Prod.mk.inj (Option.some.inj h)
        obtain ⟨ht', hall, hquote⟩ := Text.span_eq_iff.1 ⟨rfl, hdrop⟩
        obtain rfl : quote = '"' := by simpa using hquote quote rfl
        refine ⟨mark, _, caseSensitive, hmark, fun hmem => ?_, rfl, congrArg (mark ++ '"' :: ·) ht'⟩
        simpa using hall _ hmem
      · cases h
    · cases h
  · rintro ⟨mark, text, caseSensitive, hmark, hno, rfl, rfl⟩
    have hall : ∀ c ∈ text, (c != '"') = true := by
      rintro c hc
      rw [bne_iff_ne]
      rintro rfl
      exact hno hc
    obtain ⟨htake, hdrop⟩ := Text.span_eq_iff (p := (· != '"')).2
      ⟨rfl, hall, (by simp : ∀ c ∈ ('"' :: rest).head?, (c != '"') = false)⟩
    simp only [quotation?, caseMark_of_mark hmark, htake, hdrop]

/-! ## Both forms -/

/-- **Terminals are read from their notations and from nothing else.** -/
theorem element_eq_ok_nil_iff {s : Text} {t : Terminal} :
    element s = .ok (t, []) ↔ Notates s t := by
  constructor
  · intro h
    unfold element at h
    split at h
    · rename_i found hquoted
      obtain rfl := Except.ok.inj h
      obtain ⟨mark, text, caseSensitive, hmark, hno, rfl, rfl⟩ := quotation?_eq_some_iff.1 hquoted
      exact .quoted hmark hno
    · obtain ⟨written, rfl, hwritten⟩ := numeric_sound h
      rwa [List.append_nil]
  · have hnone {base : Base} {letter : Char} (hletter : letter.toLower = base.letter) (s : Text) :
        quotation? ('%' :: letter :: s) = none := by
      cases hquoted : quotation? ('%' :: letter :: s) with
      | none => rfl
      | some found =>
        obtain ⟨mark, text, _, hmark, -, -, hs⟩ := quotation?_eq_some_iff.1 hquoted
        cases hmark with
        | absent => cases (List.cons.inj hs).1
        | sensitive hc | insensitive hc =>
          obtain rfl := (List.cons.inj (List.cons.inj hs).2).1
          rw [hc] at hletter
          cases base <;> cases hletter
    intro h
    cases h with
    | range hletter hlo hhi => rw [element, hnone hletter, numeric_range hletter hlo hhi]
    | values hletter hne hgroups => rw [element, hnone hletter, numeric_values hletter hne hgroups]
    | @quoted mark text caseSensitive hmark hno =>
      rw [element, quotation?_eq_some_iff.2 ⟨mark, text, caseSensitive, hmark, hno, rfl, rfl⟩]

theorem malformed_of_element {s : Text} {e : Error} (h : element s = .error e) :
    ∃ expected rest, e = .malformed expected rest := by
  unfold element at h
  split at h
  · cases h
  · exact malformed_of_numeric h

/-! ## Values that are refused -/

theorem isScalar_iff {n : UInt32} : isScalar n = true ↔ n.isValidChar := by
  simp only [isScalar, Bool.or_eq_true, Bool.and_eq_true, decide_eq_true_eq, UInt32.lt_iff_toNat_lt]
  rfl

theorem validate_eq_ok_iff {t : Terminal} : t.validate = .ok () ↔ t.Sound := by
  cases t with
  | range base lo hi => simp [validate, Sound]
  | values base numbers =>
    simp only [validate, Sound, ← isScalar_iff]
    split
    · rename_i n hfind
      obtain ⟨hn, before, after, rfl, -⟩ := List.find?_eq_some_iff_append.1 hfind
      simp only [reduceCtorEq, false_iff, not_forall]
      exact ⟨n, by simp, by simpa using hn⟩
    · rename_i hfind
      simpa using hfind
  | quoted text caseSensitive => simp [validate, Sound]

theorem validate_eq_rangeInverted_iff {t : Terminal} {lo hi : UInt32} :
    t.validate = .error (.rangeInverted lo hi) ↔ hi < lo ∧ ∃ base, t = range base lo hi := by
  cases t with
  | range base start stop =>
    simp only [validate]
    split
    · rename_i hlt
      constructor
      · intro h
        obtain ⟨rfl, rfl⟩ := Error.rangeInverted.inj (Except.error.inj h)
        exact ⟨hlt, base, rfl⟩
      · rintro ⟨-, _, h⟩
        obtain ⟨-, rfl, rfl⟩ := range.inj h
        rfl
    · rename_i hle
      simp only [reduceCtorEq, false_iff, not_and, not_exists]
      rintro hlt _ h
      obtain ⟨-, rfl, rfl⟩ := range.inj h
      exact hle hlt
  | values base numbers =>
    simp only [validate]
    split <;> simp
  | quoted text caseSensitive => simp [validate]

theorem validate_eq_notScalar_iff {t : Terminal} {n : UInt32} :
    t.validate = .error (.notScalar n) ↔ ∃ base earlier later,
      t = values base (earlier ++ n :: later) ∧ (∀ m ∈ earlier, m.isValidChar) ∧
        ¬n.isValidChar := by
  cases t with
  | range base lo hi =>
    simp only [validate]
    split <;> simp
  | values base numbers =>
    have hfind : (values base numbers).validate = .error (.notScalar n) ↔
        numbers.find? (!isScalar ·) = some n := by
      simp only [validate]
      split
      · rename_i m hm
        simp [hm]
      · rename_i hnone
        simp [hnone]
    rw [hfind, List.find?_eq_some_iff_append]
    simp only [values.injEq, ← isScalar_iff]
    constructor
    · rintro ⟨hn, earlier, later, hnumbers, hearlier⟩
      exact ⟨base, earlier, later, ⟨rfl, hnumbers⟩, by simpa using hearlier, by simpa using hn⟩
    · rintro ⟨_, earlier, later, ⟨-, hnumbers⟩, hearlier, hn⟩
      exact ⟨by simpa using hn, earlier, later, hnumbers, by simpa using hearlier⟩
  | quoted text caseSensitive => simp [validate]

/-- Nothing that was read is refused for an element that is missing. -/
theorem validate_ne_malformed (t : Terminal) (expected : Expected) (rest : Text) :
    t.validate ≠ .error (.malformed expected rest) := by
  cases t with
  | range base lo hi =>
    simp only [validate]
    split <;> simp
  | values base numbers =>
    simp only [validate]
    split <;> simp
  | quoted text caseSensitive => simp [validate]

/-! ## Reading to the end -/

theorem whole_element_eq_ok_iff {s : Text} {t : Terminal} :
    whole element s = .ok t ↔ Notates s.trim t :=
  whole_eq_ok_iff.trans element_eq_ok_nil_iff

theorem malformed_of_whole_element {s : Text} {e : Error} (h : whole element s = .error e) :
    ∃ expected rest, e = .malformed expected rest :=
  exists_malformed_of_whole (fun _ => malformed_of_element) h

/-- **What is notated is read, unless its values are refused.** -/
theorem read_eq_ok_iff {s : Text} {t : Terminal} :
    read s = .ok t ↔ Notates s.trim t ∧ t.validate = .ok () := by
  rw [read, checked_eq_ok_iff, whole_element_eq_ok_iff]

theorem read_eq_error_iff {s : Text} {e : Error} :
    read s = .error e ↔
      whole element s = .error e ∨ ∃ t, Notates s.trim t ∧ t.validate = .error e := by
  rw [read, checked_eq_error_iff]
  simp only [whole_element_eq_ok_iff]

/-- Values are refused only in what is notated. -/
theorem read_eq_refusal_iff {s : Text} {e : Error}
    (he : ∀ expected rest, e ≠ .malformed expected rest) :
    read s = .error e ↔ ∃ t, Notates s.trim t ∧ t.validate = .error e := by
  rw [read_eq_error_iff]
  refine or_iff_right fun h => ?_
  obtain ⟨expected, rest, rfl⟩ := malformed_of_whole_element h
  exact he expected rest rfl

/-- **What is not notated is malformed.** -/
theorem read_malformed_iff {s : Text} :
    (∃ expected rest, read s = .error (.malformed expected rest)) ↔
      ∀ t, ¬Notates s.trim t := by
  constructor
  · rintro ⟨expected, rest, h⟩ t hnotates
    rcases read_eq_error_iff.1 h with hwhole | ⟨t, -, hvalidate⟩
    · cases hwhole.symm.trans (whole_element_eq_ok_iff.2 hnotates)
    · exact validate_ne_malformed t expected rest hvalidate
  · intro h
    cases hwhole : whole element s with
    | ok t => exact absurd (whole_element_eq_ok_iff.1 hwhole) (h t)
    | error e =>
      obtain ⟨expected, rest, rfl⟩ := malformed_of_whole_element hwhole
      exact ⟨expected, rest, read_eq_error_iff.2 (.inl hwhole)⟩

/-- **A terminal is read from its notations with sound values.**  The other texts are told apart:
a range that runs backwards is refused with its bounds, a sequence with its first value that is
the number of no character, and whatever is no notation at all is malformed. -/
theorem read_iff_notates (s : Text) :
    (∀ t, read s = .ok t ↔ Notates s.trim t ∧ t.Sound) ∧
      (∀ lo hi, read s = .error (.rangeInverted lo hi) ↔
        hi < lo ∧ ∃ base, Notates s.trim (range base lo hi)) ∧
      (∀ n, read s = .error (.notScalar n) ↔ ∃ base earlier later,
        Notates s.trim (values base (earlier ++ n :: later)) ∧
          (∀ m ∈ earlier, m.isValidChar) ∧ ¬n.isValidChar) ∧
      ((∃ expected rest, read s = .error (.malformed expected rest)) ↔
        ∀ t, ¬Notates s.trim t) := by
  refine ⟨fun t => ?_, fun lo hi => ?_, fun n => ?_, read_malformed_iff⟩
  · rw [read_eq_ok_iff, validate_eq_ok_iff]
  · rw [read_eq_refusal_iff (by simp)]
    simp only [validate_eq_rangeInverted_iff]
    constructor
    · rintro ⟨t, hnotates, hlt, base, rfl⟩
      exact ⟨hlt, base, hnotates⟩
    · rintro ⟨hlt, base, hnotates⟩
      exact ⟨_, hnotates, hlt, base, rfl⟩
  · rw [read_eq_refusal_iff (by simp)]
    simp only [validate_eq_notScalar_iff]
    constructor
    · rintro ⟨t, hnotates, base, earlier, later, rfl, hearlier, hn⟩
      exact ⟨base, earlier, later, hnotates, hearlier, hn⟩
    · rintro ⟨base, earlier, later, hnotates, hearlier, hn⟩
      exact ⟨_, hnotates, base, earlier, later, rfl, hearlier, hn⟩

end Terminal
end Notation
end Descent
