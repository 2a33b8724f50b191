/-
# Visiting a tree

A walk hands each node to the method of its rule.  What the methods answer is what one of them
answers at the root, and then, child by child, what they answer below it (`visited_eq`).

The sum of a tree is a visitor without a walk: its method for a sum hands the children on itself,
and leaves what is below a number alone (`sum_eq_accept`).  So its terms are the nodes that are no
sums, the first ones on each way down (`terms`):

| statement | says |
| --- | --- |
| `sum_eq_ok_iff` | there is a sum just when all terms are numbers and their exact sum has 64 bits |
| `exists_of_sum_eq_error` | else the first term that is no number is named, or a sum is too large |
| `sum_of_contributes` | if all terms are numbers, the exact sum alone decides |

Sums are added up one inside another, so there are many totals on the way.  None of them is
greater than the whole, and this is why none leaves the range unless the whole does.
-/

import Descent.Node.Visit
import Descent.Proofs.Reading
import Descent.Proofs.TreeWalk

namespace Descent

/-! ## Numbers of 64 bits -/

namespace Text
namespace Numeral

/-- A number does not get smaller by digits on its right. -/
theorem le_foldl (digits : Text) (n : Nat) :
    n ≤ digits.foldl (fun n c => n * 10 + (digit? 10 c).getD 0) n := by
  induction digits generalizing n with
  | nil => exact Nat.le_refl n
  | cons c digits ih =>
    have hstep := ih (n * 10 + (digit? 10 c).getD 0)
    rw [List.foldl_cons]
    omega

theorem foldlM_appendDigit_eq_ok_iff {digits : Text} {m n : UInt64} :
    digits.foldlM appendDigit m = .ok n ↔
      (∀ c ∈ digits, isDigit 10 c = true) ∧
        digits.foldl (fun n c => n * 10 + (digit? 10 c).getD 0) m.toNat = n.toNat := by
  induction digits generalizing m with
  | nil => simp [pure, Except.pure, UInt64.toNat_inj]
  | cons c digits ih =>
    rw [List.foldlM_cons, List.foldl_cons, List.forall_mem_cons, isDigit]
    cases hd : digit? 10 c with
    | none => simp [appendDigit, hd, bind, Except.bind]
    | some d =>
      by_cases hfits : m.toNat * 10 + d < UInt64.size
      · have hnext : appendDigit m c = .ok (m.toNat * 10 + d).toUInt64 := by
          simp [appendDigit, hd, hfits]
        have hvalue : (m.toNat * 10 + d).toUInt64.toNat = m.toNat * 10 + d :=
          UInt64.toNat_ofNat_of_lt' hfits
        rw [hnext]
        simp only [bind, Except.bind, ih, hvalue, Option.isSome_some, true_and, Option.getD_some]
      · have hnext : appendDigit m c = .error .overflow := by
          simp [appendDigit, hd, hfits]
        have hle := le_foldl digits (m.toNat * 10 + d)
        have hn : n.toNat < UInt64.size := n.toNat_lt
        rw [hnext]
        simp only [bind, Except.bind, reduceCtorEq, Option.getD_some, false_iff, not_and]
        omega

/-- **A number of 64 bits is read from its digits,** with one plus sign in front or none. -/
theorem readWord_eq_ok_iff {t : Text} {n : UInt64} :
    readWord t = .ok n ↔ ∃ digits, (t = digits ∨ t = '+' :: digits) ∧ Spells 10 digits n.toNat := by
  have hread {digits : Text} (hne : digits ≠ []) :
      digits.foldlM appendDigit 0 = .ok n ↔ Spells 10 digits n.toNat := by
    rw [foldlM_appendDigit_eq_ok_iff]
    constructor
    · rintro ⟨hall, hvalue⟩
      exact hvalue ▸ spells_value (by decide) hne hall
    · exact fun h => ⟨h.isDigit (by decide), h.value_eq (by decide)⟩
  have hplus {digits : Text} (h : Spells 10 ('+' :: digits) n.toNat) : False :=
    absurd (h.isDigit (by decide) '+' List.mem_cons_self) (by decide)
  unfold readWord
  split
  · constructor
    · intro h
      cases h
    · rintro ⟨_, rfl | h, hspells⟩
      · exact absurd rfl hspells.1
      · cases h
  · rename_i c digits
    rw [hread (List.cons_ne_nil c digits)]
    constructor
    · exact fun h => ⟨c :: digits, .inr rfl, h⟩
    · rintro ⟨_, rfl | heq, hspells⟩
      · exact (hplus hspells).elim
      · rwa [(List.cons.inj heq).2]
  · rename_i hne hplain
    rw [hread hne]
    constructor
    · exact fun h => ⟨t, .inl rfl, h⟩
    · rintro ⟨digits, rfl | rfl, hspells⟩
      · exact hspells
      · cases digits with
        | nil => exact absurd rfl hspells.1
        | cons c digits => exact absurd rfl (hplain c digits)
end Numeral
end Text

namespace Node

open Text.Numeral (Spells readWord readWord_eq_ok_iff)

variable {R : Type}

/-- **A walk visits the root, and then what is below each child,** one child after another. -/
theorem visited_eq {α : Type} (n : Node R) (visitor : Visitor R α) :
    n.visited visitor = n.accept visitor :: n.children.flatMap fun m => m.visited visitor := by
  unfold visited
  simp only [Walk.toList_start]
  rw [preorder_eq, preorderAll_eq_flatMap, List.map_cons, List.map_flatMap]

/-! ## The terms of a sum -/

variable {share : R → Share}

mutual

/-- The nodes that a sum is made of: the first ones on each way down that are no sums. -/
def terms (share : R → Share) : Node R → List (Node R)
  | ⟨rule, span, children⟩ =>
    match share rule with
    | .sum => termsAll share children
    | _ => [⟨rule, span, children⟩]

/-- The terms of several sums one after another. -/
def termsAll (share : R → Share) : List (Node R) → List (Node R)
  | [] => []
  | n :: ns => terms share n ++ termsAll share ns

end

/-- The node is a number, and its text spells it, with one plus sign in front or none. -/
def Contributes (share : R → Share) (n : Node R) (value : UInt64) : Prop :=
  share n.rule = .number ∧
    ∃ digits, (n.text = digits ∨ n.text = '+' :: digits) ∧ Spells 10 digits value.toNat

/-- The node adds no number to a sum, and this is why. -/
inductive Faulty (share : R → Share) (n : Node R) : SumError → Prop where
  | unreadable {cause : Text.Numeral.WordError} :
    share n.rule = .number → readWord n.text = .error cause → Faulty share n (.unreadable cause)
  | stray : share n.rule = .stray → Faulty share n (.stray n.text)

theorem contributes_iff {n : Node R} {value : UInt64} :
    Contributes share n value ↔ share n.rule = .number ∧ readWord n.text = .ok value := by
  rw [Contributes, readWord_eq_ok_iff]

theorem Contributes.not_faulty {n : Node R} {value : UInt64} {e : SumError}
    (h : Contributes share n value) : ¬Faulty share n e := by
  obtain ⟨hnumber, hread⟩ := contributes_iff.1 h
  rintro (⟨-, herror⟩ | hstray)
  · rw [hread] at herror
    cases herror
  · rw [hnumber] at hstray
    cases hstray

/-- A node contributes one number. -/
theorem Contributes.unique : Relator.RightUnique (Contributes share) := by
  intro n value value' h h'
  have hread := (contributes_iff.1 h).2
  rw [(contributes_iff.1 h').2] at hread
  exact (Except.ok.inj hread).symm

theorem addWords_eq_ok_iff {a b c : UInt64} :
    addWords a b = .ok c ↔ a.toNat + b.toNat = c.toNat := by
  have hc : c.toNat < UInt64.size := c.toNat_lt
  unfold addWords
  split
  · rename_i hfits
    rw [Except.ok.injEq, ← UInt64.toNat_inj, UInt64.toNat_add, Nat.mod_eq_of_lt hfits]
  · simp only [reduceCtorEq, false_iff]
    omega

/-! ## Sums -/

/-- The visitor that reads numbers, and hands the children of a sum on to their methods. -/
def summing (share : R → Share) : Visitor R (Except SumError UInt64) := fun rule n =>
  match share rule with
  | .number => (readWord n.text).mapError .unreadable
  | .stray => .error (.stray n.text)
  | .sum => n.children.foldlM (fun total child => do addWords total (← child.sum share)) 0

theorem sumOnto_eq_foldlM (start : UInt64) (ns : List (Node R)) :
    sumOnto share start ns =
      ns.foldlM (fun total child => do addWords total (← child.sum share)) start := by
  induction ns generalizing start with
  | nil => rfl
  | cons n ns ih =>
    rw [sumOnto, List.foldlM_cons, bind_assoc]
    refine bind_congr fun value => bind_congr fun total => ih total

/-- **The sum of a tree is what a visitor answers** that visits the children by itself. -/
theorem sum_eq_accept (n : Node R) : n.sum share = n.accept (summing share) := by
  obtain ⟨rule, span, children⟩ := n
  rw [sum, accept, summing, ← sumOnto_eq_foldlM]
  rfl

/-- The first tree is summed up, and added, before the others. -/
theorem sumOnto_cons_eq_ok_iff {start total : UInt64} {n : Node R} {ns : List (Node R)} :
    sumOnto share start (n :: ns) = .ok total ↔ ∃ value next, n.sum share = .ok value ∧
      start.toNat + value.toNat = next.toNat ∧ sumOnto share next ns = .ok total := by
  simp only [← addWords_eq_ok_iff]
  rw [sumOnto]
  cases n.sum share with
  | error e => simp [bind, Except.bind]
  | ok value =>
    simp only [bind, Except.bind, Except.ok.injEq, ↓existsAndEq, true_and]
    cases addWords start value <;> simp

/-- One term alone is the sum. -/
theorem exists_values_singleton_iff {n : Node R} {total : UInt64} :
    (∃ values, List.Forall₂ (Contributes share) [n] values ∧
      (values.map UInt64.toNat).sum = total.toNat) ↔ Contributes share n total := by
  constructor
  · rintro ⟨values, h, hsum⟩
    obtain ⟨value, _, hvalue, hnil, rfl⟩ := List.forall₂_cons_left_iff.1 h
    obtain rfl := List.forall₂_nil_left_iff.1 hnil
    rw [List.map_singleton, List.sum_singleton, UInt64.toNat_inj] at hsum
    exact hsum ▸ hvalue
  · intro h
    exact ⟨[total], .cons h .nil, by rw [List.map_singleton, List.sum_singleton]⟩

theorem exists_values_append_iff {ns ns' : List (Node R)} {start total : Nat} :
    (∃ values, List.Forall₂ (Contributes share) (ns ++ ns') values ∧
      start + (values.map UInt64.toNat).sum = total) ↔
    ∃ values values', List.Forall₂ (Contributes share) ns values ∧
      List.Forall₂ (Contributes share) ns' values' ∧
      start + (values.map UInt64.toNat).sum + (values'.map UInt64.toNat).sum = total := by
  constructor
  · rintro ⟨values, h, hsum⟩
    rw [← List.take_append_drop ns.length values, List.map_append, List.sum_append] at hsum
    refine ⟨values.take ns.length, values.drop ns.length, ?_, ?_, by omega⟩
    · have htake := List.forall₂_take ns.length h
      rwa [List.take_left] at htake
    · have hdrop := List.forall₂_drop ns.length h
      rwa [List.drop_left] at hdrop
  · rintro ⟨values, values', h, h', hsum⟩
    refine ⟨values ++ values', List.rel_append h h', ?_⟩
    rw [List.map_append, List.sum_append]
    omega

mutual

/-- **There is a sum just when all terms are numbers and their exact sum has 64 bits.** -/
theorem sum_eq_ok_iff {total : UInt64} : (n : Node R) →
    (n.sum share = .ok total ↔ ∃ values, List.Forall₂ (Contributes share) (n.terms share) values ∧
      (values.map UInt64.toNat).sum = total.toNat)
  | ⟨rule, span, children⟩ => by
    rw [sum, terms]
    cases hshare : share rule with
    | number =>
      have hread : Contributes share ⟨rule, span, children⟩ total ↔
          readWord span.text = .ok total := by
        rw [contributes_iff]
        exact and_iff_right hshare
      rw [exists_values_singleton_iff, hread]
      cases readWord span.text <;> simp [Except.mapError]
    | sum => simpa using sumOnto_eq_ok_iff 0 total children
    | stray =>
      rw [exists_values_singleton_iff, contributes_iff]
      simp [hshare]

theorem sumOnto_eq_ok_iff (start total : UInt64) : (ns : List (Node R)) →
    (sumOnto share start ns = .ok total ↔
      ∃ values, List.Forall₂ (Contributes share) (termsAll share ns) values ∧
        start.toNat + (values.map UInt64.toNat).sum = total.toNat)
  | [] => by simp [sumOnto, termsAll, UInt64.toNat_inj]
  | n :: ns => by
    rw [sumOnto_cons_eq_ok_iff, termsAll, exists_values_append_iff]
    simp only [sum_eq_ok_iff n, fun next => sumOnto_eq_ok_iff next total ns]
    constructor
    · rintro ⟨value, next, ⟨values, hvalues, hvalue⟩, hnext, values', hvalues', htotal⟩
      exact ⟨values, values', hvalues, hvalues', by omega⟩
    · rintro ⟨values, values', hvalues, hvalues', htotal⟩
      -- no total on the way is greater than the last one, which has 64 bits
      have hlast : total.toNat < UInt64.size := total.toNat_lt
      have hword {k : Nat} (hk : k ≤ total.toNat) : ∃ word : UInt64, word.toNat = k :=
        ⟨.ofNat k, UInt64.toNat_ofNat_of_lt' (by omega)⟩
      obtain ⟨value, hvalue⟩ : ∃ value : UInt64, value.toNat = (values.map UInt64.toNat).sum :=
        hword (by omega)
      obtain ⟨next, hnext⟩ : ∃ next : UInt64, next.toNat = start.toNat + value.toNat :=
        hword (by omega)
      exact ⟨value, next, ⟨values, hvalues, hvalue.symm⟩, hnext.symm, values', hvalues', by omega⟩

end

/-- An error comes from the first tree, from the sum that would have too many bits, or from the
other trees. -/
theorem of_sumOnto_cons_eq_error {start : UInt64} {n : Node R} {ns : List (Node R)} {e : SumError}
    (h : sumOnto share start (n :: ns) = .error e) :
    n.sum share = .error e ∨ e = .overflow ∨
      ∃ value next, n.sum share = .ok value ∧ sumOnto share next ns = .error e := by
  rw [sumOnto] at h
  cases hvalue : n.sum share with
  | error e' =>
    rw [hvalue] at h
    exact .inl h
  | ok value =>
    rw [hvalue] at h
    cases hnext : addWords start value with
    | error e' =>
      simp only [bind, Except.bind, hnext, Except.error.injEq] at h
      unfold addWords at hnext
      split at hnext
      · cases hnext
      · exact .inr (.inl (h ▸ (Except.error.inj hnext).symm))
    | ok next =>
      simp only [bind, Except.bind, hnext] at h
      exact .inr (.inr ⟨value, next, rfl, h⟩)

mutual

/-- **An error names the first term that is no number,** unless a sum has too many bits before. -/
theorem exists_of_sum_eq_error {e : SumError} : (n : Node R) → n.sum share = .error e →
    e = .overflow ∨ ∃ before m after values, n.terms share = before ++ m :: after ∧
      List.Forall₂ (Contributes share) before values ∧ Faulty share m e
  | ⟨rule, span, children⟩, h => by
    rw [sum] at h
    rw [terms]
    cases hshare : share rule with
    | number =>
      rw [hshare] at h
      cases hread : readWord span.text with
      | error cause =>
        simp only [hread, Except.mapError, Except.error.injEq] at h
        exact .inr ⟨[], _, [], [], rfl, .nil, h ▸ .unreadable hshare hread⟩
      | ok value =>
        rw [hread] at h
        cases h
    | sum =>
      rw [hshare] at h
      exact exists_of_sumOnto_eq_error 0 children h
    | stray =>
      rw [hshare] at h
      exact .inr ⟨[], _, [], [], rfl, .nil, Except.error.inj h ▸ .stray hshare⟩

theorem exists_of_sumOnto_eq_error {e : SumError} (start : UInt64) : (ns : List (Node R)) →
    sumOnto share start ns = .error e →
    e = .overflow ∨ ∃ before m after values, termsAll share ns = before ++ m :: after ∧
      List.Forall₂ (Contributes share) before values ∧ Faulty share m e
  | [], h => by
    rw [sumOnto] at h
    cases h
  | n :: ns, h => by
    rw [termsAll]
    rcases of_sumOnto_cons_eq_error h with hfirst | hover | ⟨value, next, hvalue, hlater⟩
    · refine (exists_of_sum_eq_error n hfirst).imp_right ?_
      rintro ⟨before, m, after, values, hterms, hvalues, hm⟩
      exact ⟨before, m, after ++ termsAll share ns, values, by simp [hterms], hvalues, hm⟩
    · exact .inl hover
    · obtain ⟨earlier, hearlier, -⟩ := (sum_eq_ok_iff n).1 hvalue
      refine (exists_of_sumOnto_eq_error next ns hlater).imp_right ?_
      rintro ⟨before, m, after, values, hterms, hvalues, hm⟩
      exact ⟨n.terms share ++ before, m, after, earlier ++ values, by simp [hterms],
        List.rel_append hearlier hvalues, hm⟩

end

/-- **Numbers have a sum unless it has too many bits.** -/
theorem sum_of_contributes {n : Node R} {values : List UInt64}
    (h : List.Forall₂ (Contributes share) (n.terms share) values) :
    n.sum share = if (values.map UInt64.toNat).sum < UInt64.size
      then .ok (.ofNat (values.map UInt64.toNat).sum) else .error .overflow := by
  split
  · rename_i hfits
    exact (sum_eq_ok_iff n).2 ⟨values, h, (UInt64.toNat_ofNat_of_lt' hfits).symm⟩
  · rename_i hlarge
    cases hsum : n.sum share with
    | ok total =>
      obtain ⟨values', h', htotal⟩ := (sum_eq_ok_iff n).1 hsum
      obtain rfl := Contributes.unique.forall₂ h h'
      exact absurd total.toNat_lt (htotal ▸ hlarge)
    | error e =>
      rcases exists_of_sum_eq_error n hsum with rfl | ⟨before, m, after, -, hterms, -, hm⟩
      · rfl
      · rw [hterms] at h
        have hfrom := List.forall₂_drop before.length h
        rw [List.drop_left] at hfrom
        obtain ⟨value, _, hvalue, -, -⟩ := List.forall₂_cons_left_iff.1 hfrom
        exact absurd hm hvalue.not_faulty

/-- A sum in a sum, of numbers with a sign and with a zero in front. -/
example :
    let number (t : Text) : Node Bool := ⟨true, ⟨t, 0, t.byteLength⟩, []⟩
    let inner : Node Bool := ⟨false, ⟨[], 0, 0⟩, [number "035".toList]⟩
    sum (fun isNumber => if isNumber then .number else .sum)
      ⟨false, ⟨[], 0, 0⟩, [number "+7".toList, inner]⟩ = .ok 42 := by
  rfl

end Node
end Descent
