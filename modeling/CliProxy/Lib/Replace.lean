import Mathlib

/-! # Replacing every occurrence of a word

`text.split(word).join(mark)` for a word that is not empty: the occurrences from the left, none of them
overlapping. A mark that is one letter, which the words do not have, makes no new occurrence. -/

namespace CliProxy.Lib

variable {α : Type*} [DecidableEq α]

section

variable (word mark : List α)

/-- The replacement after `skip` more characters, which belong to an occurrence. -/
def replaceFrom : Nat → List α → List α
  | _, [] => []
  | skip + 1, _ :: text => replaceFrom skip text
  | 0, c :: text =>
    if word <+: c :: text then mark ++ replaceFrom (word.length - 1) text
    else c :: replaceFrom 0 text

def replaceAll (text : List α) : List α := replaceFrom word mark 0 text

end

variable {word mark : List α}

theorem replaceFrom_drop (skip : Nat) (text : List α) :
    replaceFrom word mark skip text = replaceAll word mark (text.drop skip) := by
  induction skip generalizing text with
  | zero => rfl
  | succ skip ih =>
    cases text with
    | nil => rfl
    | cons c text => exact ih text

theorem replaceAll_word (hword : word ≠ []) (rest : List α) :
    replaceAll word mark (word ++ rest) = mark ++ replaceAll word mark rest := by
  cases word with
  | nil => exact absurd rfl hword
  | cons c word =>
    have hprefix : c :: word <+: c :: (word ++ rest) := List.prefix_append (c :: word) rest
    rw [List.cons_append, replaceAll, replaceFrom, if_pos hprefix, replaceFrom_drop,
      List.length_cons, Nat.add_sub_cancel, List.drop_left]

theorem replaceAll_cons {c : α} {text : List α} (h : ¬ word <+: c :: text) :
    replaceAll word mark (c :: text) = c :: replaceAll word mark text := by
  rw [replaceAll, replaceFrom, if_neg h]
  rfl

/-- A text is read from the left: an occurrence, or a character at which none begins. -/
theorem replace_induction {P : List α → Prop} (hword : word ≠ []) (nil : P [])
    (occurrence : ∀ rest, P rest → P (word ++ rest))
    (cons : ∀ c text, ¬ word <+: c :: text → P text → P (c :: text)) (text : List α) : P text := by
  induction hn : text.length using Nat.strong_induction_on generalizing text with
  | _ n ih =>
    cases text with
    | nil => exact nil
    | cons c text =>
      by_cases hprefix : word <+: c :: text
      · obtain ⟨rest, hrest⟩ := hprefix
        rw [← hrest]
        refine occurrence rest (ih rest.length ?_ rest rfl)
        have := List.length_pos_iff.mpr hword
        rw [← hn, ← hrest, List.length_append]
        omega
      · exact cons c text hprefix (ih text.length (by rw [← hn]; exact Nat.lt_succ_self _) text rfl)

/-! ## Occurrences in the result -/

section

variable {m : α}

theorem prefix_of_prefix_replaceAll (hword : word ≠ []) {w : List α} (hm : m ∉ w) {text : List α}
    (h : w <+: replaceAll word [m] text) : w <+: text := by
  induction text using replace_induction hword generalizing w with
  | nil => exact h
  | occurrence rest _ =>
    rw [replaceAll_word hword] at h
    cases w with
    | nil => exact List.nil_prefix
    | cons c w => exact absurd ((List.cons_prefix_cons.mp h).1 ▸ List.mem_cons_self) hm
  | cons c text hprefix ih =>
    rw [replaceAll_cons hprefix] at h
    cases w with
    | nil => exact List.nil_prefix
    | cons d w =>
      obtain ⟨hd, hw⟩ := List.cons_prefix_cons.mp h
      exact List.cons_prefix_cons.mpr ⟨hd, ih (fun hmem => hm (List.mem_cons_of_mem d hmem)) hw⟩

/-- A word without the mark is in the result only if it was in the text. -/
theorem infix_of_infix_replaceAll (hword : word ≠ []) {w : List α} (hne : w ≠ []) (hm : m ∉ w)
    {text : List α} (h : w <:+: replaceAll word [m] text) : w <:+: text := by
  induction text using replace_induction hword with
  | nil => exact h
  | occurrence rest ih =>
    rw [replaceAll_word hword, List.singleton_append, List.infix_cons_iff] at h
    rcases h with hprefix | hrest
    · cases w with
      | nil => exact absurd rfl hne
      | cons c w => exact absurd ((List.cons_prefix_cons.mp hprefix).1 ▸ List.mem_cons_self) hm
    · exact (ih hrest).trans (List.suffix_append word rest).isInfix
  | cons c text hprefix ih =>
    have hresult : replaceAll word [m] (c :: text) = c :: replaceAll word [m] text :=
      replaceAll_cons hprefix
    rw [hresult, List.infix_cons_iff] at h
    rcases h with hstart | hrest
    · exact (prefix_of_prefix_replaceAll hword hm (hresult ▸ hstart)).isInfix
    · exact (ih hrest).trans (List.suffix_cons c text).isInfix

/-- No occurrence is left. -/
theorem not_infix_replaceAll (hword : word ≠ []) (hm : m ∉ word) (text : List α) :
    ¬ word <:+: replaceAll word [m] text := by
  induction text using replace_induction hword with
  | nil => exact fun h => hword (List.infix_nil.mp h)
  | occurrence rest ih =>
    intro h
    rw [replaceAll_word hword, List.singleton_append, List.infix_cons_iff] at h
    rcases h with hprefix | hrest
    · cases word with
      | nil => exact hword rfl
      | cons c word => exact hm ((List.cons_prefix_cons.mp hprefix).1 ▸ List.mem_cons_self)
    · exact ih hrest
  | cons c text hprefix ih =>
    have hresult : replaceAll word [m] (c :: text) = c :: replaceAll word [m] text :=
      replaceAll_cons hprefix
    intro h
    rw [hresult, List.infix_cons_iff] at h
    rcases h with hstart | hrest
    · exact hprefix (prefix_of_prefix_replaceAll hword hm (hresult ▸ hstart))
    · exact ih hrest

end

/-! ## Parts of a text -/

omit [DecidableEq α] in
theorem infix_append_cons {w : List α} {c : α} (hc : c ∉ w) {a b : List α} (h : w <:+: a ++ c :: b) :
    w <:+: a ∨ w <:+: b := by
  obtain ⟨s, t, hst⟩ := h
  rw [List.append_assoc] at hst
  rcases List.append_eq_append_iff.mp hst with ⟨p, ha, hrest⟩ | ⟨p, -, hrest⟩
  · rcases List.append_eq_append_iff.mp hrest with ⟨q, hp, -⟩ | ⟨q, hw, hlast⟩
    · exact .inl ⟨s, q, by rw [ha, hp, List.append_assoc]⟩
    · cases q with
      | nil => exact .inl ⟨s, [], by rw [ha, hw]; simp⟩
      | cons d q => exact absurd (hw ▸ (List.cons.inj hlast).1 ▸ by simp) hc
  · cases p with
    | nil =>
      cases w with
      | nil => exact .inl (List.nil_infix)
      | cons d w => exact absurd ((List.cons.inj hrest).1 ▸ List.mem_cons_self) hc
    | cons d p =>
      refine .inr ⟨p, t, ?_⟩
      rw [List.append_assoc]
      exact (List.cons.inj hrest).2.symm

theorem replaceAll_append_of_notMem {first : α} {rest : List α} {a : List α} (ha : first ∉ a)
    (b : List α) : replaceAll (first :: rest) mark (a ++ b) = a ++ replaceAll (first :: rest) mark b := by
  induction a with
  | nil => rfl
  | cons c a ih =>
    obtain ⟨hc, ha⟩ := List.ne_and_not_mem_of_not_mem_cons ha
    rw [List.cons_append, replaceAll_cons fun h => hc (List.cons_prefix_cons.mp h).1, ih ha]
    rfl

/-- An occurrence does not reach over a character that the word does not have. -/
theorem replaceAll_append_cons (hword : word ≠ []) {c : α} (hc : c ∉ word) (a b : List α) :
    replaceAll word mark (a ++ c :: b) =
      replaceAll word mark a ++ c :: replaceAll word mark b := by
  have hover {p s : List α} (h : word <+: p ++ c :: s) : word <+: p := by
    rcases List.prefix_or_prefix_of_prefix h (List.prefix_append p _) with hshort | ⟨q, hq⟩
    · exact hshort
    · cases q with
      | nil => exact ⟨[], by simpa using hq.symm⟩
      | cons d q =>
        have hstart : d :: q <+: c :: s :=
          (List.prefix_append_right_inj p).mp (by rw [hq]; exact h)
        refine absurd ?_ hc
        rw [← hq, ← (List.cons_prefix_cons.mp hstart).1]
        exact List.mem_append_right p List.mem_cons_self
  induction a using replace_induction hword with
  | nil =>
    exact replaceAll_cons fun h => hword (List.prefix_nil.mp (hover (p := []) h))
  | occurrence rest ih =>
    rw [List.append_assoc, replaceAll_word hword, replaceAll_word hword, ih, List.append_assoc]
  | cons d a hprefix ih =>
    have hprefix' : ¬ word <+: d :: (a ++ c :: b) := fun h => hprefix (hover (p := d :: a) h)
    rw [List.cons_append, replaceAll_cons hprefix', replaceAll_cons hprefix, ih]
    rfl

end CliProxy.Lib
