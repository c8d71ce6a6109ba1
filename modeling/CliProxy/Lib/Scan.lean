import Mathlib.Data.List.TakeWhile

/-! # Patterns read on a growing text

Patterns that never backtrack, built from character classes: how far one reads at the head of a
text, and whether more text could change that. Scanning a text for a pattern then splits it into
what no further text can change (`settled`) and a tail that is still open. -/

namespace CliProxy.Lib

/-- A pattern, read at the head of a text after the element `before`. Where it is not
`unfinished`, further text leaves what it reads as it is. -/
structure Reader (α : Type*) where
  /-- The length of the match, on a text that ends there. -/
  read : (before : Option α) → List α → Option Nat
  unfinished : (before : Option α) → List α → Bool
  read_le : ∀ {before text n}, read before text = some n → n ≤ text.length
  read_append : ∀ {before text} (rest : List α), unfinished before text = false →
    read before (text ++ rest) = read before text

namespace Reader

variable {α : Type*}

/-- The empty match. -/
def nothing : Reader α where
  read _ _ := some 0
  unfinished _ _ := false
  read_le h := Option.some.inj h ▸ Nat.zero_le _
  read_append _ _ := rfl

/-- One element of the class `p`. -/
def one (p : α → Bool) : Reader α where
  read _ text := text.head?.bind fun a => if p a then some 1 else none
  unfinished _ text := text.isEmpty
  read_le {_ text n} h := by
    cases text with
    | nil => exact absurd h.symm (Option.some_ne_none n)
    | cons a text =>
      rw [List.head?_cons, Option.bind_some] at h
      split at h
      · obtain rfl := Option.some.inj h
        exact Nat.succ_le_succ (Nat.zero_le _)
      · exact absurd h.symm (Option.some_ne_none n)
  read_append {_ text} rest h := by
    cases text with
    | nil => exact absurd h.symm Bool.false_ne_true
    | cons a text => rfl

/-- As many elements of the class `p` as there are, but at most `max` if that is given. -/
def many (p : α → Bool) (max : Option Nat := none) : Reader α where
  read _ text := some (((max.elim text text.take).takeWhile p).length)
  unfinished _ text := text.all p && max.all (text.length < ·)
  read_le {_ text n} h := by
    obtain rfl := Option.some.inj h
    refine Nat.le_trans (List.takeWhile_prefix p).length_le ?_
    cases max with
    | none => exact Nat.le_refl _
    | some k => exact List.length_take_le' k text
  read_append {_ text} rest h := by
    have hsplit : ∀ t r : List α, t.all p = false → (t ++ r).takeWhile p = t.takeWhile p := by
      intro t r ht
      rw [List.takeWhile_append, if_neg]
      intro hlength
      have hall : t.all p = true := by
        rw [← (List.takeWhile_prefix p).eq_of_length hlength]
        exact List.all_takeWhile
      exact Bool.false_ne_true (ht.symm.trans hall)
    cases max with
    | none =>
      rw [Option.all_none, Bool.and_true] at h
      simp only [Option.elim_none, hsplit text rest h]
    | some k =>
      simp only [Option.elim_some, Option.all_some] at h ⊢
      by_cases hk : text.length < k
      · rw [decide_eq_true hk, Bool.and_true] at h
        rw [List.take_append, List.take_of_length_le (Nat.le_of_lt hk), hsplit _ _ h]
      · rw [List.take_append_of_le_length (Nat.le_of_not_lt hk)]

/-- A match of `r` that is at least `min` long. -/
def atLeast (min : Nat) (r : Reader α) : Reader α where
  read before text := (r.read before text).filter (min ≤ ·)
  unfinished := r.unfinished
  read_le h := r.read_le (Option.filter_eq_some_iff.mp h).1
  read_append rest h := by rw [r.read_append rest h]

/-- The element before the position `n` of a text. -/
def elementBefore (before : Option α) (text : List α) (n : Nat) : Option α :=
  (text.take n).getLast?.or before

theorem elementBefore_append {before : Option α} {text : List α} {n : Nat} (h : n ≤ text.length)
    (rest : List α) : elementBefore before (text ++ rest) n = elementBefore before text n := by
  rw [elementBefore, List.take_append_of_le_length h, elementBefore]

/-- A match of `r` followed by one of `s`. -/
def seq (r s : Reader α) : Reader α where
  read before text := (r.read before text).bind fun n =>
    (s.read (elementBefore before text n) (text.drop n)).map (n + ·)
  unfinished before text := r.unfinished before text ||
    (r.read before text).any fun n => s.unfinished (elementBefore before text n) (text.drop n)
  read_le {before text n} h := by
    obtain ⟨m, hm, h⟩ := Option.bind_eq_some_iff.mp h
    obtain ⟨k, hk, rfl⟩ := Option.map_eq_some_iff.mp h
    have hm' := r.read_le hm
    have hk' := s.read_le hk
    rw [List.length_drop] at hk'
    omega
  read_append {before text} rest h := by
    rw [Bool.or_eq_false_iff] at h
    rw [r.read_append rest h.1]
    cases hr : r.read before text with
    | none => rfl
    | some n =>
      have hn := r.read_le hr
      have hs : s.unfinished (elementBefore before text n) (text.drop n) = false := by
        have := h.2
        rwa [hr, Option.any_some] at this
      rw [Option.bind_some, Option.bind_some, elementBefore_append hn,
        List.drop_append_of_le_length hn, s.read_append rest hs]

theorem seq_read {r s : Reader α} {before : Option α} {text : List α} {n : Nat} :
    (r.seq s).read before text = some n ↔ ∃ m k, r.read before text = some m ∧
      s.read (elementBefore before text m) (text.drop m) = some k ∧ m + k = n := by
  show (r.read before text).bind _ = some n ↔ _
  rw [Option.bind_eq_some_iff]
  refine exists_congr fun m => ?_
  rw [Option.map_eq_some_iff]
  exact ⟨fun ⟨hm, k, hk, he⟩ => ⟨k, hm, hk, he⟩, fun ⟨k, hm, hk, he⟩ => ⟨hm, k, hk, he⟩⟩

theorem seq_unfinished {r s : Reader α} {before : Option α} {text : List α} :
    (r.seq s).unfinished before text = true ↔ r.unfinished before text = true ∨
      ∃ m, r.read before text = some m ∧
        s.unfinished (elementBefore before text m) (text.drop m) = true := by
  show (r.unfinished before text || (r.read before text).any _) = true ↔ _
  rw [Bool.or_eq_true, Option.any_eq_true]

/-- A match of `r`, or else one of `s`. -/
def orElse (r s : Reader α) : Reader α where
  read before text := (r.read before text).or (s.read before text)
  unfinished before text := r.unfinished before text ||
    ((r.read before text).isNone && s.unfinished before text)
  read_le {before text n} h := by
    obtain h | ⟨-, h⟩ := Option.or_eq_some_iff.mp h
    · exact r.read_le h
    · exact s.read_le h
  read_append {before text} rest h := by
    rw [Bool.or_eq_false_iff] at h
    rw [r.read_append rest h.1]
    cases hr : r.read before text with
    | none =>
      rw [Option.none_or, Option.none_or, s.read_append rest]
      have := h.2
      rwa [hr, Option.isNone_none, Bool.true_and] at this
    | some n => rfl

theorem orElse_unfinished {r s : Reader α} {before : Option α} {text : List α} :
    (r.orElse s).unfinished before text = true ↔ r.unfinished before text = true ∨
      (r.read before text).isNone = true ∧ s.unfinished before text = true := by
  show (r.unfinished before text || ((r.read before text).isNone && _)) = true ↔ _
  rw [Bool.or_eq_true, Bool.and_eq_true]

/-- The empty match between an element of the class `p` and one outside it, where the ends of
the text count as outside. -/
def boundary (p : α → Bool) : Reader α where
  read before text := if before.any p = text.head?.any p then none else some 0
  unfinished _ text := text.isEmpty
  read_le {before text n} h := by
    split at h
    · exact absurd h.symm (Option.some_ne_none n)
    · obtain rfl := Option.some.inj h
      exact Nat.zero_le _
  read_append {_ text} rest h := by
    cases text with
    | nil => exact absurd h.symm Bool.false_ne_true
    | cons a text => rfl

/-- The elements of `word`, one after the other. -/
def literal [DecidableEq α] (word : List α) : Reader α :=
  word.foldr (fun a => seq (one (· = a))) nothing

/-! ### Patterns that go on as far as a class does -/

/-- A match is never at the end of what has been read. -/
def Definite (r : Reader α) : Prop :=
  ∀ before text n, r.read before text = some n → r.unfinished before text = false

/-- A match that ends where the text ends goes on over the elements of `p` that follow. -/
def Continues (r : Reader α) (p : α → Bool) : Prop :=
  ∀ before text rest, r.read before text = some text.length →
    r.read before (text ++ rest) = some (text.length + (rest.takeWhile p).length)

theorem definite_nothing : Definite (nothing : Reader α) := fun _ _ _ _ => rfl

theorem definite_one (p : α → Bool) : Definite (one p) := by
  intro _ text n h
  cases text with
  | nil => exact absurd h.symm (Option.some_ne_none n)
  | cons a text => rfl

theorem Definite.seq {r s : Reader α} (hr : Definite r) (hs : Definite s) :
    Definite (r.seq s) := by
  intro before text n h
  obtain ⟨m, hm, h⟩ := Option.bind_eq_some_iff.mp h
  obtain ⟨k, hk, -⟩ := Option.map_eq_some_iff.mp h
  show (r.unfinished before text || _) = false
  rw [hr before text m hm, hm, Option.any_some, hs _ _ k hk]
  rfl

theorem definite_literal [DecidableEq α] (word : List α) : Definite (literal word) := by
  induction word with
  | nil => exact definite_nothing
  | cons a word ih => exact (definite_one _).seq ih

theorem atLeast_read {r : Reader α} {min n : Nat} {before : Option α} {text : List α} :
    (r.atLeast min).read before text = some n ↔ r.read before text = some n ∧ min ≤ n := by
  show (r.read before text).filter _ = some n ↔ _
  rw [Option.filter_eq_some_iff, decide_eq_true_iff]

theorem drop_takeWhile {p : α → Bool} (text : List α) :
    text.drop (text.takeWhile p).length = text.dropWhile p := by
  have h : (text.takeWhile p ++ text.dropWhile p).drop (text.takeWhile p).length =
      text.dropWhile p := List.drop_left
  rwa [List.takeWhile_append_dropWhile] at h

theorem one_seq_read {p : α → Bool} {s : Reader α} {before : Option α} {text : List α} {n : Nat}
    (h : ((one p).seq s).read before text = some n) : ∃ a rest before' k,
      text = a :: rest ∧ p a = true ∧ s.read before' rest = some k ∧ 1 + k = n := by
  obtain ⟨m, k, hm, hk, he⟩ := seq_read.mp h
  cases text with
  | nil => exact absurd hm.symm (Option.some_ne_none m)
  | cons a rest =>
    have hm : (if p a = true then some 1 else none) = some m := hm
    split at hm
    next ha =>
      obtain rfl := Option.some.inj hm
      exact ⟨a, rest, _, k, rfl, ha, hk, he⟩
    next => exact absurd hm.symm (Option.some_ne_none m)

theorem one_seq_unfinished {p : α → Bool} {s : Reader α} {before : Option α} {text : List α}
    (h : ((one p).seq s).unfinished before text = true) : text = [] ∨ ∃ a rest before',
      text = a :: rest ∧ p a = true ∧ s.unfinished before' rest = true := by
  cases text with
  | nil => exact .inl rfl
  | cons a rest =>
    obtain hfirst | ⟨m, hm, hrest⟩ := seq_unfinished.mp h
    · exact absurd hfirst Bool.false_ne_true
    · have hm : (if p a = true then some 1 else none) = some m := hm
      split at hm
      next ha =>
        obtain rfl := Option.some.inj hm
        exact .inr ⟨a, rest, _, rfl, ha, hrest⟩
      next => exact absurd hm.symm (Option.some_ne_none m)

theorem many_seq_read {p : α → Bool} {s : Reader α} {before : Option α} {text : List α} {n : Nat}
    (h : ((many p).seq s).read before text = some n) :
    ∃ before' k, s.read before' (text.dropWhile p) = some k := by
  obtain ⟨m, k, hm, hk, -⟩ := seq_read.mp h
  obtain rfl := Option.some.inj hm
  have hk : s.read _ (text.drop (text.takeWhile p).length) = some k := hk
  rw [drop_takeWhile] at hk
  exact ⟨_, k, hk⟩

theorem many_seq_unfinished {p : α → Bool} {s : Reader α} {before : Option α} {text : List α}
    (h : ((many p).seq s).unfinished before text = true) :
    (∀ a ∈ text, p a = true) ∨ ∃ before', s.unfinished before' (text.dropWhile p) = true := by
  obtain hfirst | ⟨m, hm, hrest⟩ := seq_unfinished.mp h
  · have hfirst : (text.all p && true) = true := hfirst
    rw [Bool.and_true] at hfirst
    exact .inl (List.all_eq_true.mp hfirst)
  · obtain rfl := Option.some.inj hm
    have hrest : s.unfinished _ (text.drop (text.takeWhile p).length) = true := hrest
    rw [drop_takeWhile] at hrest
    exact .inr ⟨_, hrest⟩

theorem literal_read [DecidableEq α] {word text : List α} {before : Option α} {n : Nat}
    (h : (literal word).read before text = some n) : ∃ rest, text = word ++ rest ∧
      text.drop n = rest := by
  induction word generalizing before text n with
  | nil =>
    obtain rfl := Option.some.inj h
    exact ⟨text, rfl, rfl⟩
  | cons a word ih =>
    obtain ⟨b, text, _, k, rfl, hb, hk, rfl⟩ := one_seq_read h
    obtain ⟨rest, rfl, hd⟩ := ih hk
    exact ⟨rest, by rw [of_decide_eq_true hb]; rfl, by rwa [Nat.add_comm]⟩

/-- A text that ends inside a literal is a proper beginning of it. -/
theorem literal_unfinished [DecidableEq α] {word text : List α} {before : Option α}
    (h : (literal word).unfinished before text = true) : ∃ a rest, word = text ++ a :: rest := by
  induction word generalizing before text with
  | nil => exact absurd h Bool.false_ne_true
  | cons a word ih =>
    obtain rfl | ⟨b, text, _, rfl, hb, hrest⟩ := one_seq_unfinished h
    · exact ⟨a, word, rfl⟩
    · obtain ⟨c, rest, rfl⟩ := ih hrest
      exact ⟨c, rest, by rw [of_decide_eq_true hb]; rfl⟩

theorem many_read {p : α → Bool} {before : Option α} {text : List α} :
    (many p).read before text = some (text.takeWhile p).length := rfl

/-- Elements of a class are read to their end once another element has been read. -/
theorem definite_many_one (min : Nat) (max : Option Nat) (p q : α → Bool) :
    Definite (((many p max).atLeast min).seq (one q)) := by
  intro before text n h
  obtain ⟨m, hm, h⟩ := Option.bind_eq_some_iff.mp h
  obtain ⟨k, hk, -⟩ := Option.map_eq_some_iff.mp h
  have hlength : ((max.elim text text.take).takeWhile p).length = m :=
    Option.some.inj (atLeast_read.mp hm).1
  have hopen : (text.all p && max.all (text.length < ·)) = false := by
    rw [Bool.eq_false_iff, ne_eq, Bool.and_eq_true]
    rintro ⟨hall, hmax⟩
    have hself : text.takeWhile p = text :=
      List.takeWhile_eq_self_iff.mpr (List.all_eq_true.mp hall)
    have hbound : max.elim text text.take = text := by
      cases max with
      | none => rfl
      | some k => exact List.take_of_length_le (Nat.le_of_lt (of_decide_eq_true hmax))
    have hnil : text.drop m = [] := by rw [← hlength, hbound, hself, List.drop_length]
    rw [hnil] at hk
    exact Option.some_ne_none k hk.symm
  show ((text.all p && max.all (text.length < ·)) || _) = false
  rw [hopen, hm, Option.any_some, definite_one q _ _ k hk]
  rfl

/-- A boundary has been read once something that cannot be empty has been read after it. -/
theorem Definite.boundary_seq {r : Reader α} (hr : Definite r) (hnil : ∀ b, r.read b [] = none)
    (p : α → Bool) : Definite ((boundary p).seq r) := by
  intro before text n h
  obtain ⟨m, hm, h⟩ := Option.bind_eq_some_iff.mp h
  obtain ⟨k, hk, -⟩ := Option.map_eq_some_iff.mp h
  cases text with
  | nil =>
    rw [List.drop_nil, hnil] at hk
    exact absurd hk.symm (Option.some_ne_none k)
  | cons a text =>
    show (false || ((boundary p).read before (a :: text)).any _) = false
    rw [hm, Option.any_some, hr _ _ k hk]
    rfl

theorem continues_many (p : α → Bool) : Continues (many p) p := by
  intro _ text rest h
  have hself : (text.takeWhile p).length = text.length := Option.some.inj h
  rw [many_read, List.takeWhile_append, if_pos hself, List.length_append]

theorem Continues.atLeast {r : Reader α} {p : α → Bool} (H : Continues r p) (min : Nat) :
    Continues (r.atLeast min) p := by
  intro before text rest h
  obtain ⟨h, hmin⟩ := atLeast_read.mp h
  exact atLeast_read.mpr ⟨H before text rest h, Nat.le_add_right_of_le hmin⟩

theorem Continues.seq {r s : Reader α} {p : α → Bool} (H : Continues s p) (hr : Definite r) :
    Continues (r.seq s) p := by
  intro before text rest h
  obtain ⟨m, hm, h⟩ := Option.bind_eq_some_iff.mp h
  obtain ⟨k, hk, hlength⟩ := Option.map_eq_some_iff.mp h
  have hle := r.read_le hm
  have hend : k = (text.drop m).length := by
    rw [List.length_drop]
    omega
  have hm' := r.read_append rest (hr before text m hm)
  show ((r.read before (text ++ rest)).bind fun n => _) = _
  rw [hm', hm, Option.bind_some, elementBefore_append hle, List.drop_append_of_le_length hle,
    H _ _ rest (hend ▸ hk), Option.map_some, ← hend, ← Nat.add_assoc, hlength]

/-- A match that ends where the text ends is unchanged unless an element of `p` follows. -/
def EndsBefore (r : Reader α) (p : α → Bool) : Prop :=
  ∀ before text rest, r.read before text = some text.length → rest.head?.any p = false →
    r.read before (text ++ rest) = some text.length

theorem EndsBefore.seq {r s : Reader α} {p : α → Bool} (H : EndsBefore s p) (hr : Definite r) :
    EndsBefore (r.seq s) p := by
  intro before text rest h hrest
  obtain ⟨m, hm, h⟩ := Option.bind_eq_some_iff.mp h
  obtain ⟨k, hk, hlength⟩ := Option.map_eq_some_iff.mp h
  have hle := r.read_le hm
  have hend : k = (text.drop m).length := by
    rw [List.length_drop]
    omega
  have hm' := r.read_append rest (hr before text m hm)
  show ((r.read before (text ++ rest)).bind fun n => _) = _
  rw [hm', hm, Option.bind_some, elementBefore_append hle, List.drop_append_of_le_length hle,
    H _ _ rest (hend ▸ hk) hrest, Option.map_some, ← hend, hlength]

theorem takeWhile_append_of_head {p q : α → Bool} (hpq : ∀ a, p a = true → q a = true)
    {text : List α} (htext : text.takeWhile p = text) {rest : List α}
    (hrest : rest.head?.any q = false) : (text ++ rest).takeWhile p = text := by
  rw [List.takeWhile_append, htext, if_pos rfl]
  cases rest with
  | nil => exact List.append_nil text
  | cons a rest =>
    have ha : ¬p a = true := fun h => Bool.eq_false_iff.mp hrest (hpq a h)
    rw [List.takeWhile_cons_of_neg ha, List.append_nil]

/-- A word at the end of the text stays the word that it is unless an element of `q` follows. -/
theorem endsBefore_word {p q : α → Bool} (hpq : ∀ a, p a = true → q a = true) (min : Nat)
    (max : Option Nat) : EndsBefore (((many p max).atLeast min).seq (boundary q)) q := by
  intro before text rest h hrest
  obtain ⟨m, hm, h⟩ := Option.bind_eq_some_iff.mp h
  obtain ⟨k, hk, hlength⟩ := Option.map_eq_some_iff.mp h
  obtain ⟨hread, hmin⟩ := atLeast_read.mp hm
  have hk0 : k = 0 := by
    have hk : (if _ then none else some 0) = some k := hk
    split at hk
    · exact absurd hk.symm (Option.some_ne_none k)
    · exact (Option.some.inj hk).symm
  have hmlength : m = text.length := by omega
  have hlong : ((max.elim text text.take).takeWhile p).length = text.length :=
    (Option.some.inj hread).trans hmlength
  have hbound : max.elim text text.take = text := by
    cases max with
    | none => rfl
    | some k =>
      have := (List.takeWhile_prefix (l := text.take k) p).length_le
      refine List.take_of_length_le ?_
      simp only [Option.elim_some, List.length_take] at this hlong
      omega
  rw [hbound] at hlong
  have hself : text.takeWhile p = text := (List.takeWhile_prefix p).eq_of_length hlong
  have hword : ((max.elim (text ++ rest) (text ++ rest).take).takeWhile p).length = m := by
    rw [hmlength]
    cases max with
    | none => exact congrArg _ (takeWhile_append_of_head hpq hself hrest)
    | some k =>
      have hle : text.length ≤ k := by
        have hlength := congrArg List.length hbound
        rw [Option.elim_some, List.length_take] at hlength
        omega
      have hhead : (rest.take (k - text.length)).head?.any q = false := by
        rw [List.head?_take]
        split
        · rfl
        · exact hrest
      show ((text ++ rest).take k |>.takeWhile p).length = _
      rw [List.take_append, List.take_of_length_le hle,
        takeWhile_append_of_head hpq hself hhead]
  have hm' : ((many p max).atLeast min).read before (text ++ rest) = some m :=
    atLeast_read.mpr ⟨congrArg some hword, hmin⟩
  show (((many p max).atLeast min).read before (text ++ rest)).bind _ = _
  rw [hm', Option.bind_some, elementBefore_append (Nat.le_of_eq hmlength), hmlength,
    List.drop_left]
  rw [hmlength, List.drop_length, hk0] at hk
  have hhead : (boundary q).read (elementBefore before text text.length) rest = some 0 := by
    have hk : (if _ = Option.any q none then none else some 0) = some 0 := hk
    show (if _ = rest.head?.any q then none else some 0) = some 0
    rwa [hrest]
  rw [hhead]
  rfl

end Reader

/-! ### Scanning a text -/

/-- What scanning for a pattern makes of a text: the matches, and the elements between them. -/
inductive Lexeme (α : Type*) where
  | found (piece : List α)
  | other (a : α)

namespace Lexeme

variable {α : Type*}

def piece? : Lexeme α → Option (List α)
  | .found piece => some piece
  | .other _ => none

def other? : Lexeme α → Option α
  | .found _ => none
  | .other a => some a

end Lexeme

/-- The part of a text that no further text can change, and the tail that is still open, with
the element before it. -/
structure Settled (α : Type*) where
  lexemes : List (Lexeme α)
  before : Option α
  tail : List α

def Settled.matched {α : Type*} (s : Settled α) : List (List α) :=
  s.lexemes.filterMap Lexeme.piece?

def Settled.others {α : Type*} (s : Settled α) : List α := s.lexemes.filterMap Lexeme.other?

namespace Reader

variable {α : Type*} (r : Reader α)

/-- The lexemes of a text whose first `skipped` elements belong to the match before. -/
def lexFrom : (before : Option α) → (skipped : Nat) → List α → List (Lexeme α)
  | _, _, [] => []
  | _, n + 1, a :: text => lexFrom (some a) n text
  | before, 0, a :: text => match r.read before (a :: text) with
    | some n => .found ((a :: text).take n) :: lexFrom (some a) (n - 1) text
    | none => .other a :: lexFrom (some a) 0 text

/-- The scan that stops where the pattern is unfinished. -/
def settleFrom : (before : Option α) → (skipped : Nat) → List α → Settled α
  | before, _, [] => ⟨[], before, []⟩
  | _, n + 1, a :: text => settleFrom (some a) n text
  | before, 0, a :: text =>
    if r.unfinished before (a :: text) then ⟨[], before, a :: text⟩
    else match r.read before (a :: text) with
      | some n =>
        let rest := settleFrom (some a) (n - 1) text
        { rest with lexemes := .found ((a :: text).take n) :: rest.lexemes }
      | none =>
        let rest := settleFrom (some a) 0 text
        { rest with lexemes := .other a :: rest.lexemes }

/-- The matches in a text, from left to right, none overlapping another. -/
def matchAll (text : List α) : List (List α) :=
  (r.lexFrom none 0 text).filterMap Lexeme.piece?

/-- The text without its matches. -/
def erase (text : List α) : List α := (r.lexFrom none 0 text).filterMap Lexeme.other?

def settled (text : List α) : Settled α := r.settleFrom none 0 text

/-- Further text is read after the settled part, from the open tail on. -/
theorem lexFrom_append {before : Option α} {skipped : Nat} {text : List α}
    (h : skipped ≤ text.length) (rest : List α) :
    r.lexFrom before skipped (text ++ rest) =
      (r.settleFrom before skipped text).lexemes ++
        r.lexFrom (r.settleFrom before skipped text).before 0
          ((r.settleFrom before skipped text).tail ++ rest) := by
  induction text generalizing before skipped with
  | nil =>
    obtain rfl := Nat.le_zero.mp h
    rfl
  | cons a text ih =>
    cases skipped with
    | succ n => exact ih (Nat.le_of_succ_le_succ h)
    | zero =>
      rw [settleFrom]
      split
      · rfl
      next hopen =>
        have hread := r.read_append rest (Bool.eq_false_iff.mpr hopen)
        rw [List.cons_append] at hread ⊢
        rw [lexFrom, hread]
        cases hn : r.read before (a :: text) with
        | none => exact congrArg _ (ih (Nat.zero_le _))
        | some n =>
          have hle := r.read_le hn
          dsimp only
          rw [← List.cons_append, List.take_append_of_le_length hle, ih (Nat.sub_le_of_le_add hle)]
          rfl

/-- The lexemes from the open tail on, once `rest` has followed. -/
def late (s : Settled α) (rest : List α) : List (Lexeme α) :=
  r.lexFrom s.before 0 (s.tail ++ rest)

/-- The first of the values that `value` gives to the matches. -/
def firstMatch {β : Type*} (value : List α → Option β) (text : List α) : Option β :=
  (r.matchAll text).findSome? value

theorem erase_append (text rest : List α) : r.erase (text ++ rest) =
    (r.settled text).others ++ (r.late (r.settled text) rest).filterMap Lexeme.other? := by
  rw [erase, r.lexFrom_append (Nat.zero_le _), List.filterMap_append]
  rfl

theorem matchAll_append (text rest : List α) : r.matchAll (text ++ rest) =
    (r.settled text).matched ++ (r.late (r.settled text) rest).filterMap Lexeme.piece? := by
  rw [matchAll, r.lexFrom_append (Nat.zero_le _), List.filterMap_append]
  rfl

/-- A value that the settled matches give is the value whatever follows; otherwise what is read
from the open tail on decides. -/
theorem firstMatch_append {β : Type*} (value : List α → Option β) (text rest : List α) :
    r.firstMatch value (text ++ rest) = ((r.settled text).matched.findSome? value).or
      (((r.late (r.settled text) rest).filterMap Lexeme.piece?).findSome? value) := by
  rw [firstMatch, matchAll_append, List.findSome?_append]

theorem unfinished_tail (before : Option α) (skipped : Nat) (text : List α) :
    (r.settleFrom before skipped text).tail = [] ∨
      r.unfinished (r.settleFrom before skipped text).before
        (r.settleFrom before skipped text).tail = true := by
  induction text generalizing before skipped with
  | nil =>
    cases skipped <;> exact .inl rfl
  | cons a text ih =>
    cases skipped with
    | succ n => exact ih (some a) n
    | zero =>
      rw [settleFrom]
      split
      next h => exact .inr h
      next =>
        split
        · exact ih ..
        · exact ih ..

/-- A text has no match if the pattern reads none anywhere. -/
theorem lexFrom_of_read_none {text : List α} (before : Option α)
    (h : ∀ before w, w <:+ text → r.read before w = none) :
    (r.lexFrom before 0 text).filterMap Lexeme.piece? = [] := by
  induction text generalizing before with
  | nil => rfl
  | cons a text ih =>
    rw [lexFrom, h before (a :: text) (List.suffix_refl _)]
    exact ih _ fun before w hw => h before w (hw.trans (List.suffix_cons a text))

/-- The match that the open tail is, if it is one. -/
def openMatch (s : Settled α) : Option (List α) :=
  if s.tail ≠ [] ∧ r.read s.before s.tail = some s.tail.length then some s.tail else none

variable {r} {s : Settled α} {word : List α}

theorem openMatch_eq (h : r.openMatch s = some word) :
    s.tail = word ∧ word ≠ [] ∧ r.read s.before word = some word.length := by
  rw [openMatch] at h
  split at h
  next hopen =>
    obtain rfl := Option.some.inj h
    exact ⟨rfl, hopen⟩
  next => exact absurd h.symm (Option.some_ne_none word)

/-- What is read at the open tail comes first. -/
theorem late_of_read (htail : s.tail = word) (hne : word ≠ []) {rest : List α} {n : Nat}
    (h : r.read s.before (word ++ rest) = some n) : ∃ pieces,
    (r.late s rest).filterMap Lexeme.piece? = (word ++ rest).take n :: pieces := by
  rw [late, htail]
  cases word with
  | nil => exact absurd rfl hne
  | cons a word =>
    rw [List.cons_append] at h
    rw [List.cons_append, lexFrom, h]
    exact ⟨_, rfl⟩

/-- A match that the open tail is goes on over what follows. -/
theorem Continues.late {p : α → Bool} (H : r.Continues p) (h : r.openMatch s = some word)
    (rest : List α) : ∃ pieces,
    (r.late s rest).filterMap Lexeme.piece? = (word ++ rest.takeWhile p) :: pieces := by
  obtain ⟨htail, hne, hread⟩ := openMatch_eq h
  obtain ⟨pieces, hpieces⟩ := late_of_read htail hne (H _ word rest hread)
  refine ⟨pieces, hpieces.trans ?_⟩
  rw [List.take_append, List.take_of_length_le (Nat.le_add_right _ _), Nat.add_sub_cancel_left,
    ← List.prefix_iff_eq_take.mp (List.takeWhile_prefix p)]

/-- A match that the open tail is stands where nothing of `p` follows. -/
theorem EndsBefore.late {p : α → Bool} (H : r.EndsBefore p) (h : r.openMatch s = some word)
    {rest : List α} (hrest : rest.head?.any p = false) : ∃ pieces,
    (r.late s rest).filterMap Lexeme.piece? = word :: pieces := by
  obtain ⟨htail, hne, hread⟩ := openMatch_eq h
  obtain ⟨pieces, hpieces⟩ := late_of_read htail hne (H _ word rest hread hrest)
  exact ⟨pieces, hpieces.trans (by rw [List.take_left])⟩

end Reader

end CliProxy.Lib
