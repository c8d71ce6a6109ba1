import Mathlib.Data.List.Basic
import Mathlib.Data.List.Induction

/-! # Absolute paths

`isAbsolute`, `basename` and `normalize` of a path module for `/`-separated paths. A normalized path
is its own normal form, and the last name of a path stays the last name. -/

namespace CliProxy.Lib.PosixPath

def isAbsolute (path : List Char) : Bool := path.head? = some '/'

/-- The last part, trailing separators apart. -/
def basename (path : List Char) : List Char :=
  ((path.splitOn '/').filter (· ≠ [])).getLastD []

/-- One part of a path under the ones kept so far, the last of them first. -/
def resolvePart (absolute : Bool) (kept : List (List Char)) (part : List Char) :
    List (List Char) :=
  if part = [] ∨ part = ['.'] then kept
  else if part = ['.', '.'] then
    if kept.head? = some ['.', '.'] ∨ (kept = [] ∧ absolute = false) then part :: kept
    else kept.tail
  else part :: kept

def normalizeString (path : List Char) : List Char :=
  ['/'].intercalate ((path.splitOn '/').foldl (resolvePart (isAbsolute path)) []).reverse

def normalize (path : List Char) : List Char :=
  let trailing := if path.getLast? = some '/' then ['/'] else []
  match normalizeString path with
  | [] => if isAbsolute path then ['/'] else '.' :: trailing
  | c :: rest => (if isAbsolute path then ['/'] else []) ++ (c :: rest) ++ trailing

/-! ## Parts that stay -/

/-- A part that names an entry of a directory. -/
structure Names (part : List Char) : Prop where
  ne_nil : part ≠ []
  ne_dot : part ≠ ['.']
  ne_dots : part ≠ ['.', '.']
  slash : '/' ∉ part

theorem resolvePart_names {absolute : Bool} {kept : List (List Char)} {part : List Char}
    (h : Names part) : resolvePart absolute kept part = part :: kept := by
  rw [resolvePart, if_neg (not_or.mpr ⟨h.ne_nil, h.ne_dot⟩), if_neg h.ne_dots]

theorem foldl_names {absolute : Bool} {parts kept : List (List Char)} (h : ∀ part ∈ parts, Names part) :
    parts.foldl (resolvePart absolute) kept = parts.reverse ++ kept := by
  induction parts generalizing kept with
  | nil => rfl
  | cons part parts ih =>
    rw [List.forall_mem_cons] at h
    rw [List.foldl_cons, resolvePart_names h.1, ih h.2, List.reverse_cons, List.append_assoc]
    rfl

/-- Below a root nothing but names is kept. -/
theorem names_foldl {parts kept : List (List Char)} (hslash : ∀ part ∈ parts, '/' ∉ part)
    (hkept : ∀ part ∈ kept, Names part) :
    ∀ part ∈ parts.foldl (resolvePart true) kept, Names part := by
  induction parts generalizing kept with
  | nil => exact hkept
  | cons part parts ih =>
    rw [List.forall_mem_cons] at hslash
    apply ih hslash.2
    rw [resolvePart]
    split
    next => exact hkept
    next hdot =>
      split
      next =>
        have htop : ¬(kept.head? = some ['.', '.'] ∨ kept = [] ∧ true = false) := by
          rintro (htop | ⟨-, hfalse⟩)
          · exact (hkept _ (List.mem_of_head? htop)).ne_dots rfl
          · cases hfalse
        rw [if_neg htop]
        exact fun p hp => hkept p (List.mem_of_mem_tail hp)
      next hdots =>
        rw [not_or] at hdot
        exact List.forall_mem_cons.mpr ⟨⟨hdot.1, hdot.2, hdots, hslash.1⟩, hkept⟩

/-- The text of a path below the root. -/
def absolute (parts : List (List Char)) (trailing : Bool) : List Char :=
  ['/'].intercalate ([] :: parts ++ if trailing || parts.isEmpty then [[]] else [])

theorem mem_splitOn_slash {path part : List Char} (h : part ∈ path.splitOn '/') : '/' ∉ part := by
  induction path generalizing part with
  | nil =>
    rw [List.splitOn_nil, List.mem_singleton] at h
    exact h ▸ List.not_mem_nil
  | cons c path ih =>
    rw [List.splitOn_cons_eq_if_modifyHead] at h
    split at h
    next =>
      obtain rfl | h := List.mem_cons.mp h
      · exact List.not_mem_nil
      · exact ih h
    next hc =>
      cases hparts : path.splitOn '/' with
      | nil => exact absurd hparts (List.splitOn_ne_nil _ _)
      | cons first parts =>
        rw [hparts] at h ih
        obtain rfl | h := List.mem_cons.mp h
        · have hfirst := ih (.head _)
          simp only [List.mem_cons, not_or]
          exact ⟨fun heq => hc (beq_iff_eq.mpr heq.symm), hfirst⟩
        · exact ih (.tail _ h)

/-- The parts that the normal form of an absolute path keeps. -/
def kept (path : List Char) : List (List Char) :=
  ((path.splitOn '/').foldl (resolvePart true) []).reverse

theorem names_kept {path part : List Char} (h : part ∈ kept path) : Names part :=
  names_foldl (fun _ => mem_splitOn_slash) (List.forall_mem_nil _) part (List.mem_reverse.mp h)

theorem intercalate_eq_nil {parts : List (List Char)} (h : ∀ part ∈ parts, Names part) :
    ['/'].intercalate parts = [] ↔ parts = [] := by
  constructor
  · intro hnil
    cases parts with
    | nil => rfl
    | cons part parts =>
      have hpart := (h part (.head _)).ne_nil
      cases parts with
      | nil => exact absurd hnil (by rwa [List.intercalate_singleton])
      | cons next rest =>
        rw [List.intercalate_cons_cons] at hnil
        exact absurd (List.append_eq_nil_iff.mp (List.append_eq_nil_iff.mp hnil).1).1 hpart
  · rintro rfl
    rfl

theorem intercalate_concat_nil {parts : List (List Char)} (hne : parts ≠ []) :
    ['/'].intercalate (parts ++ [[]]) = ['/'].intercalate parts ++ ['/'] := by
  induction parts with
  | nil => exact absurd rfl hne
  | cons part parts ih =>
    cases parts with
    | nil => simp [List.intercalate_cons_cons, List.intercalate_singleton]
    | cons next rest =>
      rw [List.cons_append, List.cons_append, List.intercalate_cons_cons, ← List.cons_append,
        ih (List.cons_ne_nil _ _), List.intercalate_cons_cons]
      simp only [List.append_assoc]

theorem absolute_eq {parts : List (List Char)} (hne : parts ≠ []) (trailing : Bool) :
    absolute parts trailing =
      '/' :: (['/'].intercalate parts ++ if trailing then ['/'] else []) := by
  have hempty : parts.isEmpty = false := List.isEmpty_eq_false_iff.mpr hne
  rw [absolute, hempty, Bool.or_false]
  cases trailing with
  | false =>
    rw [if_neg Bool.false_ne_true, if_neg Bool.false_ne_true, List.append_nil, List.append_nil,
      List.intercalate_cons_of_ne_nil hne]
    rfl
  | true =>
    rw [if_pos rfl, if_pos rfl, List.cons_append, List.intercalate_cons_of_ne_nil (by simp),
      intercalate_concat_nil hne]
    rfl

theorem normalize_eq {path : List Char} (h : isAbsolute path = true) :
    normalize path = absolute (kept path) (path.getLast? = some '/') := by
  have hstring : normalizeString path = ['/'].intercalate (kept path) := by
    rw [normalizeString, h, kept]
  have hnil : ['/'].intercalate (kept path) = [] ↔ kept path = [] :=
    intercalate_eq_nil fun _ => names_kept
  rw [normalize, hstring]
  cases hbody : ['/'].intercalate (kept path) with
  | nil =>
    rw [hnil.mp hbody]
    simp only [h, if_true]
    rw [absolute, List.isEmpty_nil, Bool.or_true, if_pos rfl]
    rfl
  | cons c rest =>
    have hne : kept path ≠ [] := fun hkept => by
      rw [hkept] at hbody
      cases hbody
    rw [absolute_eq hne, hbody]
    simp only [h, if_true, decide_eq_true_eq]
    rfl

theorem splitOn_absolute {parts : List (List Char)} (h : ∀ part ∈ parts, Names part)
    (trailing : Bool) : (absolute parts trailing).splitOn '/' =
      [] :: parts ++ if trailing || parts.isEmpty then [[]] else [] := by
  apply List.splitOn_intercalate
  · intro part hpart
    rw [List.cons_append, List.mem_cons, List.mem_append] at hpart
    rcases hpart with rfl | hpart | hpart
    · exact List.not_mem_nil
    · exact (h part hpart).slash
    · split at hpart
      · rw [List.mem_singleton] at hpart
        exact hpart ▸ List.not_mem_nil
      · cases hpart
  · exact List.cons_ne_nil _ _

theorem isAbsolute_absolute (parts : List (List Char)) (trailing : Bool) :
    isAbsolute (absolute parts trailing) = true := by
  by_cases hne : parts = []
  · subst hne
    rw [absolute, List.isEmpty_nil, Bool.or_true, if_pos rfl]
    rfl
  · rw [absolute_eq hne]
    rfl

theorem isAbsolute_normalize {path : List Char} (h : isAbsolute path = true) :
    isAbsolute (normalize path) = true := normalize_eq h ▸ isAbsolute_absolute ..

theorem kept_absolute {parts : List (List Char)} (h : ∀ part ∈ parts, Names part)
    (trailing : Bool) : kept (absolute parts trailing) = parts := by
  have hempty : ∀ kept, resolvePart true kept [] = kept := fun kept => if_pos (.inl rfl)
  rw [kept, splitOn_absolute h, List.cons_append, List.foldl_cons, hempty, List.foldl_append,
    foldl_names h, List.append_nil]
  split
  · rw [List.foldl_cons, hempty, List.foldl_nil, List.reverse_reverse]
  · exact List.reverse_reverse _

theorem getLast?_intercalate {parts : List (List Char)} (h : ∀ part ∈ parts, Names part) :
    (['/'].intercalate parts).getLast? ≠ some '/' := by
  induction parts with
  | nil => exact nofun
  | cons part parts ih =>
    rw [List.forall_mem_cons] at h
    cases parts with
    | nil =>
      rw [List.intercalate_singleton]
      exact fun hlast => h.1.slash (List.mem_of_getLast? hlast)
    | cons next rest =>
      have hne : ['/'].intercalate (next :: rest) ≠ [] :=
        (intercalate_eq_nil h.2).not.mpr (List.cons_ne_nil _ _)
      rw [List.intercalate_cons_cons, List.getLast?_append_of_ne_nil _ hne]
      exact ih h.2

theorem getLast?_absolute {parts : List (List Char)} (h : ∀ part ∈ parts, Names part)
    (trailing : Bool) :
    ((absolute parts trailing).getLast? = some '/') ↔ (trailing || parts.isEmpty) = true := by
  by_cases hne : parts = []
  · subst hne
    rw [absolute, List.isEmpty_nil, Bool.or_true, if_pos rfl]
    exact iff_of_true rfl rfl
  · have hempty : parts.isEmpty = false := List.isEmpty_eq_false_iff.mpr hne
    rw [absolute_eq hne, hempty, Bool.or_false]
    cases trailing with
    | true =>
      rw [if_pos rfl, ← List.cons_append, List.getLast?_concat]
      exact iff_of_true rfl rfl
    | false =>
      have hne : ['/'].intercalate parts ≠ [] := (intercalate_eq_nil h).not.mpr hne
      rw [if_neg Bool.false_ne_true, List.append_nil, ← List.singleton_append,
        List.getLast?_append_of_ne_nil _ hne]
      exact iff_of_false (getLast?_intercalate h) Bool.false_ne_true

theorem normalize_normalize {path : List Char} (h : isAbsolute path = true) :
    normalize (normalize path) = normalize path := by
  have hparts : ∀ part ∈ kept path, Names part := fun _ => names_kept
  have htrailing : ∀ trailing, decide ((absolute (kept path) trailing).getLast? = some '/') =
      (trailing || (kept path).isEmpty) := fun trailing =>
    Bool.eq_iff_iff.mpr (decide_eq_true_iff.trans (getLast?_absolute hparts trailing))
  rw [normalize_eq (isAbsolute_normalize h), normalize_eq h, kept_absolute hparts, htrailing,
    absolute, absolute, Bool.or_assoc, Bool.or_self]

/-! ## The last name -/

theorem head?_foldl {parts : List (List Char)} {name : List Char} (hname : Names name)
    (hlast : (parts.filter (· ≠ [])).getLastD [] = name) :
    (parts.foldl (resolvePart true) []).head? = some name := by
  induction parts using List.reverseRecOn with
  | nil => exact absurd hlast.symm hname.ne_nil
  | append_singleton parts part ih =>
    rw [List.filter_append] at hlast
    rw [List.foldl_append, List.foldl_cons, List.foldl_nil]
    by_cases hpart : part = []
    · rw [hpart, List.filter_cons_of_neg (by simp), List.filter_nil, List.append_nil] at hlast
      rw [hpart, resolvePart, if_pos (.inl rfl)]
      exact ih hlast
    · rw [List.filter_cons_of_pos (by simpa using hpart), List.filter_nil,
        List.getLastD_concat] at hlast
      rw [hlast, resolvePart_names hname]
      rfl

theorem basename_normalize {path name : List Char} (h : isAbsolute path = true)
    (hname : Names name) (hbase : basename path = name) : basename (normalize path) = name := by
  have hparts : ∀ part ∈ kept path, Names part := fun _ => names_kept
  have hkept : (kept path).getLast? = some name := by
    rw [kept, List.getLast?_reverse]
    exact head?_foldl hname hbase
  have hfilter : (kept path).filter (· ≠ []) = kept path :=
    List.filter_eq_self.mpr fun part hpart => by simpa using (hparts part hpart).ne_nil
  have hend : ∀ b : Bool, (if b = true then [([] : List Char)] else []).filter (· ≠ []) = [] := by
    intro b
    cases b <;> rfl
  rw [normalize_eq h, basename, splitOn_absolute hparts, List.cons_append,
    List.filter_cons_of_neg (by simp), List.filter_append, hfilter, hend, List.append_nil,
    List.getLastD_eq_getLast?, hkept]
  rfl

end CliProxy.Lib.PosixPath
