/-
# Parsing expressions, read off the text alone

What a parsing expression makes of a text, with no cursor, no list of nodes that
grows, and nothing to take back: it refuses the text, or it takes a beginning of it
and gives the trees of the rules in that beginning.

| expression | verdict on `t` |
| --- | --- |
| pattern | takes a text that it describes at the head of `t` |
| `andThen a b` | that of `b` on what `a` leaves, after what `a` took |
| `orElse a b`, `alternative a b` | that of `a`, or that of `b` when `a` refuses |
| `sequence a` | that of `a` |
| `repeated bounds a` | occurrences of `a`, greedily, and none of them given back |
| `rule tag a` | that of `a`, its trees under one tree |
| `ref i` | that of the body of rule `i` |

`Reads` is this reading as a relation, since rules may refer to each other without
end; no text has two verdicts (`Reads.deterministic`).  A tree holds where it begins
in the text of its parent, so that trees of later parts are moved as a whole
(`Tree.shift`), and `Tree.IsAt` says which node a tree is once it has a place.
-/

import Descent.Proofs.Taking
import Descent.Expr

namespace Descent
namespace Peg

variable {R : Type} {n : Nat}

/-- What a rule makes of a text. -/
structure Tree (R : Type) where
  rule : R
  /-- The number of bytes before it in the text that its parent takes. -/
  start : Nat
  /-- The text that the rule takes. -/
  spelling : Text
  children : List (Tree R)

namespace Tree

/-- The tree in a text with so many bytes more before it. -/
def shift (bytes : Nat) (t : Tree R) : Tree R := { t with start := bytes + t.start }

mutual

/-- The node is the tree, when the text of its parent begins at `base` in the input. -/
def IsAt (input : Text) (base : Nat) : Tree R → Node R → Prop
  | ⟨rule, start, spelling, children⟩, m =>
    m.rule = rule ∧
      m.span = ⟨input, base + start, base + start + spelling.byteLength⟩ ∧
      m.text = spelling ∧ AreAt input (base + start) children m.children

/-- The nodes are the trees, one by one. -/
def AreAt (input : Text) (base : Nat) : List (Tree R) → List (Node R) → Prop
  | [], ms => ms = []
  | t :: ts, ms => ∃ first later, ms = first :: later ∧ IsAt input base t first ∧ AreAt input base ts later

end

theorem areAt_append {input : Text} {base : Nat} {ts us : List (Tree R)} {ms ns : List (Node R)}
    (h : AreAt input base ts ms) (h' : AreAt input base us ns) :
    AreAt input base (ts ++ us) (ms ++ ns) := by
  induction ts generalizing ms with
  | nil =>
    rw [AreAt] at h
    subst h
    exact h'
  | cons t ts ih =>
    rw [AreAt] at h
    obtain ⟨first, later, rfl, hfirst, hlater⟩ := h
    rw [List.cons_append, AreAt]
    exact ⟨first, later ++ ns, rfl, hfirst, ih hlater⟩

/-- Trees that are moved lie where the others do from a later base. -/
theorem areAt_map_shift {input : Text} {base bytes : Nat} {ts : List (Tree R)}
    {ms : List (Node R)} (h : AreAt input (base + bytes) ts ms) :
    AreAt input base (ts.map (shift bytes)) ms := by
  induction ts generalizing ms with
  | nil => exact h
  | cons t ts ih =>
    rw [AreAt] at h
    obtain ⟨first, later, rfl, hfirst, hlater⟩ := h
    rw [List.map_cons, AreAt]
    refine ⟨first, later, rfl, ?_, ih hlater⟩
    obtain ⟨rule, start, spelling, children⟩ := t
    rw [IsAt, Nat.add_assoc] at hfirst
    exact hfirst

end Tree

/-- What an expression makes of a text. -/
inductive Verdict (R : Type) where
  | refused
  /-- It takes this beginning of the text, with these trees in it. -/
  | took (taken : Text) (forest : List (Tree R))

namespace Verdict

/-- The verdict on a text whose beginning was taken before. -/
def after (taken : Text) (forest : List (Tree R)) : Verdict R → Verdict R
  | refused => refused
  | took more trees => took (taken ++ more) (forest ++ trees.map (Tree.shift taken.byteLength))

/-- The verdict of a rule, from that of its body. -/
def under (tag : R) : Verdict R → Verdict R
  | refused => refused
  | took taken forest => took taken [⟨tag, 0, taken, forest⟩]

/-- The verdict when a repetition ends after so many occurrences. -/
def ended (bounds : Notation.Repeat) (count : Nat) : Verdict R :=
  if bounds.min.toNat ≤ count then took [] [] else refused

end Verdict

/-- What is to be read: an expression, or the occurrences of one after so many of them. -/
inductive Goal (R : Type) (n : Nat) where
  | one (e : Expr R n)
  | more (bounds : Notation.Repeat) (e : Expr R n) (count : Nat)

/-- A further occurrence is allowed after so many. -/
def HasRoom (bounds : Notation.Repeat) (count : Nat) : Prop :=
  ∀ most, bounds.max = some most → count < most.toNat

/-- An occurrence that takes this text is the last one when there are then so many. -/
def IsLast (bounds : Notation.Repeat) (count : Nat) (taken : Text) : Prop :=
  bounds.max = none ∧ bounds.min.toNat ≤ count ∧ taken = []

/-- The verdict of parsing expressions on a text. -/
inductive Reads (rules : Rules R n) : Goal R n → Text → Verdict R → Prop where
  | succeed {t : Text} : Reads rules (.one .succeed) t (.took [] [])
  | fail {t : Text} : Reads rules (.one .fail) t .refused
  | pattern {p : Pattern} {t taken rest : Text} (ht : t = taken ++ rest) (hp : p.Describes taken) :
    Reads rules (.one (.pattern p)) t (.took taken [])
  | pattern_refused {p : Pattern} {t : Text}
    (hp : ∀ taken rest, t = taken ++ rest → ¬ p.Describes taken) :
    Reads rules (.one (.pattern p)) t .refused
  | written {notated t : Text} {terminal : Notation.Terminal} {v : Verdict R}
    (hread : Notation.Terminal.read notated = .ok terminal)
    (h : Reads rules (.one (.pattern (.terminal terminal))) t v) :
    Reads rules (.one (.written notated)) t v
  | andThen {a b : Expr R n} {t taken rest : Text} {forest : List (Tree R)} {v : Verdict R}
    (ht : t = taken ++ rest) (ha : Reads rules (.one a) t (.took taken forest))
    (hb : Reads rules (.one b) rest v) :
    Reads rules (.one (.andThen a b)) t (v.after taken forest)
  | andThen_refused {a b : Expr R n} {t : Text} (ha : Reads rules (.one a) t .refused) :
    Reads rules (.one (.andThen a b)) t .refused
  | orElse {a b : Expr R n} {t taken : Text} {forest : List (Tree R)}
    (ha : Reads rules (.one a) t (.took taken forest)) :
    Reads rules (.one (.orElse a b)) t (.took taken forest)
  | orElse_refused {a b : Expr R n} {t : Text} {v : Verdict R}
    (ha : Reads rules (.one a) t .refused) (hb : Reads rules (.one b) t v) :
    Reads rules (.one (.orElse a b)) t v
  | alternative {a b : Expr R n} {t : Text} {v : Verdict R}
    (h : Reads rules (.one (.orElse a b)) t v) : Reads rules (.one (.alternative a b)) t v
  | sequence {a : Expr R n} {t : Text} {v : Verdict R} (h : Reads rules (.one a) t v) :
    Reads rules (.one (.sequence a)) t v
  | rule {tag : R} {a : Expr R n} {t : Text} {v : Verdict R} (h : Reads rules (.one a) t v) :
    Reads rules (.one (.rule tag a)) t (v.under tag)
  | ref {i : Fin n} {t : Text} {v : Verdict R} (h : Reads rules (.one (rules i)) t v) :
    Reads rules (.one (.ref i)) t v
  | repeated {bounds : Notation.Repeat} {a : Expr R n} {t : Text} {v : Verdict R}
    (h : Reads rules (.more bounds a 0) t v) : Reads rules (.one (.repeated bounds a)) t v
  | full {bounds : Notation.Repeat} {a : Expr R n} {count : Nat} {t : Text}
    (hfull : ¬ HasRoom bounds count) :
    Reads rules (.more bounds a count) t (.ended bounds count)
  | last_refused {bounds : Notation.Repeat} {a : Expr R n} {count : Nat} {t : Text}
    (hroom : HasRoom bounds count) (ha : Reads rules (.one a) t .refused) :
    Reads rules (.more bounds a count) t (.ended bounds count)
  | last_empty {bounds : Notation.Repeat} {a : Expr R n} {count : Nat} {t taken : Text}
    {forest : List (Tree R)} (hroom : HasRoom bounds count)
    (ha : Reads rules (.one a) t (.took taken forest)) (hlast : IsLast bounds (count + 1) taken) :
    Reads rules (.more bounds a count) t (.took taken forest)
  | onward {bounds : Notation.Repeat} {a : Expr R n} {count : Nat} {t taken rest : Text}
    {forest : List (Tree R)} {v : Verdict R} (hroom : HasRoom bounds count) (ht : t = taken ++ rest)
    (ha : Reads rules (.one a) t (.took taken forest)) (hon : ¬ IsLast bounds (count + 1) taken)
    (hmore : Reads rules (.more bounds a (count + 1)) rest v) :
    Reads rules (.more bounds a count) t (v.after taken forest)

variable {rules : Rules R n}

/-- **No text has two verdicts.**  The induction is on the first reading; the second one ends in
the same way, because what its parts make of the text is the same. -/
theorem Reads.deterministic {g : Goal R n} {t : Text} {v w : Verdict R} (h : Reads rules g t v)
    (h' : Reads rules g t w) : v = w := by
  induction h generalizing w with
  | succeed =>
    cases h' with
    | succeed => rfl
  | fail =>
    cases h' with
    | fail => rfl
  | @pattern p t taken rest ht hp =>
    cases h' with
    | @pattern _ _ taken' rest' ht' hp' =>
      rw [hp.unique hp' (ht.symm.trans ht')]
    | pattern_refused hno => exact absurd hp (hno taken rest ht)
  | pattern_refused hno =>
    cases h' with
    | pattern ht' hp' => exact absurd hp' (hno _ _ ht')
    | pattern_refused => rfl
  | written hread _ ih =>
    cases h' with
    | written hread' h' =>
      obtain rfl := Except.ok.inj (hread.symm.trans hread')
      exact ih h'
  | andThen ht _ _ iha ihb =>
    cases h' with
    | andThen ht' ha' hb' =>
      obtain ⟨rfl, rfl⟩ := Verdict.took.inj (iha ha')
      obtain rfl := List.append_cancel_left (ht.symm.trans ht')
      rw [ihb hb']
    | andThen_refused ha' => cases iha ha'
  | andThen_refused _ iha =>
    cases h' with
    | andThen _ ha' _ => cases iha ha'
    | andThen_refused => rfl
  | orElse _ iha =>
    cases h' with
    | orElse ha' => exact iha ha'
    | orElse_refused ha' _ => cases iha ha'
  | orElse_refused _ _ iha ihb =>
    cases h' with
    | orElse ha' => cases iha ha'
    | orElse_refused _ hb' => exact ihb hb'
  | alternative _ ih =>
    cases h' with
    | alternative h' => exact ih h'
  | sequence _ ih =>
    cases h' with
    | sequence h' => exact ih h'
  | rule _ ih =>
    cases h' with
    | rule h' => rw [ih h']
  | ref _ ih =>
    cases h' with
    | ref h' => exact ih h'
  | repeated _ ih =>
    cases h' with
    | repeated h' => exact ih h'
  | full hfull =>
    cases h' with
    | full => rfl
    | last_refused hroom _ => exact absurd hroom hfull
    | last_empty hroom _ _ => exact absurd hroom hfull
    | onward hroom _ _ _ _ => exact absurd hroom hfull
  | last_refused hroom _ iha =>
    cases h' with
    | full hfull => exact absurd hroom hfull
    | last_refused => rfl
    | last_empty _ ha' _ => cases iha ha'
    | onward _ _ ha' _ _ => cases iha ha'
  | last_empty hroom _ hlast iha =>
    cases h' with
    | full hfull => exact absurd hroom hfull
    | last_refused _ ha' => cases iha ha'
    | last_empty _ ha' _ => exact iha ha'
    | onward _ _ ha' hon _ =>
      obtain ⟨rfl, rfl⟩ := Verdict.took.inj (iha ha')
      exact absurd hlast hon
  | onward hroom ht _ hon _ iha ihmore =>
    cases h' with
    | full hfull => exact absurd hroom hfull
    | last_refused _ ha' => cases iha ha'
    | last_empty _ ha' hlast =>
      obtain ⟨rfl, rfl⟩ := Verdict.took.inj (iha ha')
      exact absurd hlast hon
    | onward _ ht' ha' _ hmore' =>
      obtain ⟨rfl, rfl⟩ := Verdict.took.inj (iha ha')
      obtain rfl := List.append_cancel_left (ht.symm.trans ht')
      rw [ihmore hmore']

end Peg
end Descent
