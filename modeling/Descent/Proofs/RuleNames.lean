/-
# What is a rule name

A rule name is a letter, followed by letters, digits and hyphens, all of them ASCII
(`IsRuleName`).  A text gives a name when it is one but for the blank characters at its ends, and
two texts give the same name when what they give differs in the case of its letters alone
(`SameName`).  `folded?` is what tells names apart: the name that a text gives, its letters small.
-/

import Descent.Notation.RuleName
import Descent.Proofs.Reading

namespace Descent
namespace Notation

/-- A letter, and then letters, digits and hyphens. -/
def IsRuleName : Text → Prop
  | [] => False
  | first :: rest => first.isAlpha ∧ ∀ c ∈ rest, c.isAlphanum ∨ c = '-'

-- The characters of the text are gone through, not all that there are.
instance : DecidablePred IsRuleName
  | [] => inferInstanceAs (Decidable False)
  | first :: rest =>
    @instDecidableAnd (first.isAlpha) _ _
      (List.decidableBAll (fun c => c.isAlphanum ∨ c = '-') rest)

namespace RuleName

theorem isInner_iff {c : Char} : isInner c = true ↔ c.isAlphanum ∨ c = '-' := by
  rw [isInner, Bool.or_eq_true, beq_iff_eq]

theorem element_eq_ok_nil_iff {t : Text} {name : RuleName} :
    element t = .ok (name, []) ↔ IsRuleName t ∧ name.spelling = t := by
  cases t with
  | nil => simp [element, IsRuleName]
  | cons first rest =>
    simp only [element, IsRuleName]
    split
    · rename_i hfirst
      constructor
      · intro h
        obtain ⟨rfl, hdrop⟩ := Prod.mk.inj (Except.ok.inj h)
        obtain ⟨hrest, hall, -⟩ := Text.span_eq_iff.1 ⟨rfl, hdrop⟩
        rw [List.append_nil] at hrest
        rw [← hrest] at hall ⊢
        exact ⟨⟨hfirst, fun c hc => isInner_iff.1 (hall c hc)⟩, rfl⟩
      · obtain ⟨spelling⟩ := name
        rintro ⟨⟨-, hall⟩, rfl⟩
        obtain ⟨htake, hdrop⟩ := Text.span_eq_iff (p := isInner).2
          ⟨(List.append_nil rest).symm, fun c hc => isInner_iff.2 (hall c hc), by simp⟩
        rw [htake, hdrop]
    · rename_i hfirst
      simp [hfirst]

/-- **A name is read just from a text that is one,** blank characters at its ends apart. -/
theorem read_eq_ok_iff {t : Text} {name : RuleName} :
    read t = .ok name ↔ IsRuleName t.trim ∧ name.spelling = t.trim := by
  rw [read, whole_eq_ok_iff, element_eq_ok_nil_iff]

theorem exists_read_iff {t : Text} : (∃ name, read t = .ok name) ↔ IsRuleName t.trim := by
  simp only [read_eq_ok_iff]
  exact ⟨fun ⟨_, h, _⟩ => h, fun h => ⟨⟨t.trim⟩, h, rfl⟩⟩

/-- The texts give names that differ in the case of their letters at most. -/
def SameName (a b : Text) : Prop :=
  IsRuleName a.trim ∧ IsRuleName b.trim ∧ a.trim.map Char.toLower = b.trim.map Char.toLower

instance (a b : Text) : Decidable (SameName a b) :=
  inferInstanceAs (Decidable (IsRuleName a.trim ∧ IsRuleName b.trim ∧
    a.trim.map Char.toLower = b.trim.map Char.toLower))

/-- The name that a text gives, its letters small; none if the text gives no name. -/
def folded? (t : Text) : Option Text :=
  if IsRuleName t.trim then some (t.trim.map Char.toLower) else none

theorem folded?_of_read {t : Text} {name : RuleName} (h : read t = .ok name) :
    folded? t = some name.key := by
  obtain ⟨hname, hspelling⟩ := read_eq_ok_iff.1 h
  rw [folded?, if_pos hname, key, hspelling]

theorem isRuleName_of_folded? {t k : Text} (h : folded? t = some k) :
    IsRuleName t.trim ∧ t.trim.map Char.toLower = k := by
  unfold folded? at h
  split at h
  · rename_i hname
    exact ⟨hname, Option.some.inj h⟩
  · cases h

theorem sameName_iff {a b : Text} :
    SameName a b ↔ ∃ k, folded? a = some k ∧ folded? b = some k := by
  constructor
  · rintro ⟨ha, hb, hsame⟩
    exact ⟨_, if_pos ha, hsame ▸ if_pos hb⟩
  · rintro ⟨k, ha, hb⟩
    obtain ⟨hname, hfold⟩ := isRuleName_of_folded? ha
    obtain ⟨hname', hfold'⟩ := isRuleName_of_folded? hb
    exact ⟨hname, hname', hfold.trans hfold'.symm⟩

theorem sameName_iff_of_folded? {a b k : Text} (h : folded? b = some k) :
    SameName a b ↔ folded? a = some k := by
  simp [sameName_iff, h]

end RuleName
end Notation
end Descent
