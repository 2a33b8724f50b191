/-
# Texts and their pieces

A text is a list of characters, and a place in it is a number of bytes of its
UTF-8 form: a character takes one to four of them.  A cut is possible between
two characters and nowhere else, so what a cut gives is partial:

| operation | answer |
| --- | --- |
| `t.byteLength` | how many bytes `t` takes |
| `t.take? n` | the first `n` bytes of `t` |
| `t.drop? n` | what follows the first `n` bytes of `t` |
| `t.slice? i j` | the bytes of `t` from `i` up to `j` |

A cut is a way to write the text as two parts, the first one of the length asked
for (`take?_eq_some_iff`, `drop?_eq_some_iff`), and there is at most one
(`append_inj_of_byteLength`).
-/

namespace Descent

/-- A text: its characters, in order. -/
abbrev Text := List Char

namespace Text

/-- The number of bytes of the UTF-8 form of a text. -/
def byteLength : Text → Nat
  | [] => 0
  | c :: t => c.utf8Size + byteLength t

/-- The first `n` bytes of a text; none when the text is shorter, or when byte `n`
lies inside a character. -/
def take? : Nat → Text → Option Text
  | 0, _ => some []
  | _ + 1, [] => none
  | n + 1, c :: t =>
    if c.utf8Size ≤ n + 1 then (take? (n + 1 - c.utf8Size) t).map (c :: ·) else none

/-- What follows the first `n` bytes of a text; none when the text is shorter, or when
byte `n` lies inside a character. -/
def drop? : Nat → Text → Option Text
  | 0, t => some t
  | _ + 1, [] => none
  | n + 1, c :: t => if c.utf8Size ≤ n + 1 then drop? (n + 1 - c.utf8Size) t else none

/-- The bytes of a text from `start` up to `stop`; none unless both are boundaries,
in this order. -/
def slice? (t : Text) (start stop : Nat) : Option Text :=
  if start ≤ stop then (drop? start t).bind (take? (stop - start)) else none

@[simp] theorem byteLength_nil : byteLength [] = 0 := rfl

@[simp] theorem byteLength_cons (c : Char) (t : Text) :
    byteLength (c :: t) = c.utf8Size + byteLength t := rfl

@[simp] theorem byteLength_append (a b : Text) :
    byteLength (a ++ b) = byteLength a + byteLength b := by
  induction a with
  | nil => simp
  | cons c a ih => simp [ih, Nat.add_assoc]

/-- A text that is not empty takes at least one byte. -/
theorem byteLength_eq_zero {t : Text} : byteLength t = 0 ↔ t = [] := by
  cases t with
  | nil => simp
  | cons c t =>
    have := c.utf8Size_pos
    simp
    omega

/-- Two ways to write a text as parts agree when their first parts take as many bytes. -/
theorem append_inj_of_byteLength {a b a' b' : Text} (h : a ++ b = a' ++ b')
    (hlen : byteLength a = byteLength a') : a = a' ∧ b = b' := by
  induction a generalizing a' with
  | nil =>
    obtain rfl := byteLength_eq_zero.1 (hlen.symm.trans byteLength_nil)
    exact ⟨rfl, h⟩
  | cons c a ih =>
    cases a' with
    | nil => exact absurd (byteLength_eq_zero.1 (hlen.trans byteLength_nil)) (by simp)
    | cons c' a' =>
      obtain ⟨rfl, hrest⟩ := List.cons.inj h
      obtain ⟨rfl, rfl⟩ := ih hrest (by simpa using hlen)
      exact ⟨rfl, rfl⟩

@[simp] theorem take?_zero (t : Text) : take? 0 t = some [] := by cases t <;> rfl

@[simp] theorem drop?_zero (t : Text) : drop? 0 t = some t := by cases t <;> rfl

/-- One character takes its own bytes off a cut. -/
theorem drop?_cons (c : Char) (t : Text) (n : Nat) :
    drop? (c.utf8Size + n) (c :: t) = drop? n t := by
  have hc := c.utf8Size_pos
  obtain ⟨m, hm⟩ : ∃ m, c.utf8Size + n = m + 1 := ⟨c.utf8Size + n - 1, by omega⟩
  have hle : c.utf8Size ≤ m + 1 := by omega
  have hsub : m + 1 - c.utf8Size = n := by omega
  simp [hm, drop?, hle, hsub]

theorem take?_cons (c : Char) (t : Text) (n : Nat) :
    take? (c.utf8Size + n) (c :: t) = (take? n t).map (c :: ·) := by
  have hc := c.utf8Size_pos
  obtain ⟨m, hm⟩ : ∃ m, c.utf8Size + n = m + 1 := ⟨c.utf8Size + n - 1, by omega⟩
  have hle : c.utf8Size ≤ m + 1 := by omega
  have hsub : m + 1 - c.utf8Size = n := by omega
  simp [hm, take?, hle, hsub]

@[simp] theorem drop?_append (a b : Text) : drop? (byteLength a) (a ++ b) = some b := by
  induction a with
  | nil => simp
  | cons c a ih => simpa [drop?_cons] using ih

@[simp] theorem take?_append (a b : Text) : take? (byteLength a) (a ++ b) = some a := by
  induction a with
  | nil => simp
  | cons c a ih => simp [take?_cons, ih]

/-- **What follows a cut** is the second of two parts, the first of which takes `n` bytes. -/
theorem drop?_eq_some_iff {n : Nat} {t b : Text} :
    drop? n t = some b ↔ ∃ a, t = a ++ b ∧ byteLength a = n := by
  refine ⟨fun h => ?_, fun ⟨a, ht, hn⟩ => ht ▸ hn ▸ drop?_append a b⟩
  induction t generalizing n with
  | nil =>
    cases n with
    | zero => exact ⟨[], by simpa using h⟩
    | succ n => simp [drop?] at h
  | cons c t ih =>
    cases n with
    | zero => exact ⟨[], by simpa using h⟩
    | succ n =>
      unfold drop? at h
      split at h
      · obtain ⟨a, rfl, hlen⟩ := ih h
        exact ⟨c :: a, rfl, by simp [hlen]; omega⟩
      · simp at h

/-- **What stands before a cut** is the first of two parts, and takes `n` bytes. -/
theorem take?_eq_some_iff {n : Nat} {t a : Text} :
    take? n t = some a ↔ ∃ b, t = a ++ b ∧ byteLength a = n := by
  refine ⟨fun h => ?_, fun ⟨b, ht, hn⟩ => ht ▸ hn ▸ take?_append a b⟩
  induction t generalizing n a with
  | nil =>
    cases n with
    | zero => exact ⟨[], by simp_all⟩
    | succ n => simp [take?] at h
  | cons c t ih =>
    cases n with
    | zero => exact ⟨c :: t, by simp_all⟩
    | succ n =>
      unfold take? at h
      split at h
      · obtain ⟨a', ha', rfl⟩ := Option.map_eq_some_iff.1 h
        obtain ⟨b, rfl, hlen⟩ := ih ha'
        exact ⟨b, rfl, by simp [hlen]; omega⟩
      · simp at h

/-- **A slice** is the middle one of three parts. -/
theorem slice?_eq_some_iff {t b : Text} {start stop : Nat} :
    slice? t start stop = some b ↔
      ∃ a c, t = a ++ (b ++ c) ∧ byteLength a = start ∧ start + byteLength b = stop := by
  constructor
  · intro h
    unfold slice? at h
    split at h
    · rename_i hle
      obtain ⟨rest, hrest, hb⟩ := Option.bind_eq_some_iff.1 h
      obtain ⟨a, rfl, ha⟩ := drop?_eq_some_iff.1 hrest
      obtain ⟨c, rfl, hlen⟩ := take?_eq_some_iff.1 hb
      exact ⟨a, c, rfl, ha, by omega⟩
    · simp at h
  · rintro ⟨a, c, rfl, rfl, rfl⟩
    simp [slice?]

end Text
end Descent
