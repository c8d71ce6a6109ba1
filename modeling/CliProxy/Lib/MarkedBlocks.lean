import Mathlib

/-! # Blocks between markers

A text with managed blocks, each between an opening and a closing marker, and the removal of the
blocks by `text.replace(/opening[\s\S]*?closing\n?/g, "")`. The first character of a marker does not
come again in it, so that no two occurrences of it overlap. -/

namespace CliProxy.Lib

variable {α : Type*}

structure Marker (α : Type*) where
  first : α
  rest : List α
  first_notMem : first ∉ rest

namespace Marker

def word (m : Marker α) : List α := m.first :: m.rest

theorem word_ne_nil (m : Marker α) : m.word ≠ [] := List.cons_ne_nil _ _

/-- An occurrence of the marker that begins before another one ends before it. -/
theorem prefix_of_prefix_append {m : Marker α} {p s : List α} (hp : p ≠ [])
    (h : m.word <+: p ++ (m.word ++ s)) : m.word <+: p := by
  rcases List.prefix_or_prefix_of_prefix h (List.prefix_append p _) with hshort | hlong
  · exact hshort
  · obtain ⟨q, hq⟩ := hlong
    cases q with
    | nil => exact ⟨[], by simpa using hq.symm⟩
    | cons c q =>
      have hstart : c :: q <+: m.word ++ s :=
        (List.prefix_append_right_inj p).mp (by rw [hq]; exact h)
      have hc : c = m.first := (List.cons_prefix_cons.mp hstart).1
      cases p with
      | nil => exact absurd rfl hp
      | cons d p =>
        have hrest : p ++ c :: q = m.rest := (List.cons.inj hq).2
        refine absurd ?_ m.first_notMem
        rw [← hrest, ← hc]
        exact List.mem_append_right _ List.mem_cons_self

end Marker

variable [DecidableEq α]

/-- The text before the first occurrence of the word, and the text after it. -/
def cut (word : List α) : List α → Option (List α × List α)
  | [] => none
  | c :: text =>
    if word <+: c :: text then some ([], (c :: text).drop word.length)
    else (cut word text).map fun (before, after) => (c :: before, after)

theorem cut_length {word text before after : List α} (hword : word ≠ [])
    (h : cut word text = some (before, after)) : after.length < text.length := by
  induction text generalizing before with
  | nil => cases h
  | cons c text ih =>
    rw [cut] at h
    split at h
    · cases h
      have := List.length_pos_iff.mpr hword
      rw [List.length_drop, List.length_cons]
      omega
    · obtain ⟨⟨before', after'⟩, hcut, heq⟩ := Option.map_eq_some_iff.mp h
      cases heq
      exact (ih hcut).trans (Nat.lt_succ_self _)

theorem cut_eq_none {word text : List α} (h : ¬ word <:+: text) : cut word text = none := by
  induction text with
  | nil => rfl
  | cons c text ih =>
    rw [cut, if_neg fun hprefix => h hprefix.isInfix,
      ih fun hfound => h (hfound.trans (List.suffix_cons c text).isInfix)]
    rfl

theorem cut_marker {m : Marker α} {p : List α} (hp : ¬ m.word <:+: p) (s : List α) :
    cut m.word (p ++ (m.word ++ s)) = some (p, s) := by
  induction p with
  | nil =>
    have hprefix : m.first :: m.rest <+: m.first :: (m.rest ++ s) := List.prefix_append m.word s
    rw [List.nil_append, Marker.word, List.cons_append, cut, if_pos hprefix, ← List.cons_append,
      List.drop_left]
  | cons c p ih =>
    have hprefix : ¬ m.word <+: c :: (p ++ (m.word ++ s)) := fun h =>
      hp (Marker.prefix_of_prefix_append (List.cons_ne_nil c p) h).isInfix
    rw [List.cons_append, cut, if_neg hprefix,
      ih fun h => hp (h.trans (List.suffix_cons c p).isInfix)]
    rfl

/-- Without the newline at the beginning. -/
def dropNewline (newline : α) (text : List α) : List α :=
  if text.head? = some newline then text.tail else text

theorem length_dropNewline (newline : α) (text : List α) :
    (dropNewline newline text).length ≤ text.length := by
  rw [dropNewline]
  split
  · rw [List.length_tail]
    omega
  · exact Nat.le_refl _

section

variable (opening closing : Marker α) (newline : α)

/-- `text.replace(/opening[\s\S]*?closing\n?/g, "")` -/
def eraseBlocks (text : List α) : List α :=
  match _h : cut opening.word text with
  | none => text
  | some (before, after) =>
    match _h' : cut closing.word after with
    | none => text
    | some (_, rest) => before ++ eraseBlocks (dropNewline newline rest)
termination_by text.length
decreasing_by
  have := cut_length opening.word_ne_nil _h
  have := cut_length closing.word_ne_nil _h'
  have := length_dropNewline newline rest
  omega

variable {opening closing}

theorem eraseBlocks_of_notInfix {text : List α} (h : ¬ opening.word <:+: text) :
    eraseBlocks opening closing newline text = text := by
  rw [eraseBlocks]
  split
  · rfl
  · next hcut => exact absurd (hcut.symm.trans (cut_eq_none h)) (Option.some_ne_none _)

/-- The first block of a text. -/
theorem eraseBlocks_block {before body : List α} (hbefore : ¬ opening.word <:+: before)
    (hbody : ¬ closing.word <:+: body) (rest : List α) :
    eraseBlocks opening closing newline
        (before ++ (opening.word ++ (body ++ (closing.word ++ rest)))) =
      before ++ eraseBlocks opening closing newline (dropNewline newline rest) := by
  have hopening := cut_marker hbefore (body ++ (closing.word ++ rest))
  have hclosing := cut_marker hbody rest
  rw [eraseBlocks]
  split
  · next hcut => exact absurd (hopening.symm.trans hcut) (Option.some_ne_none _)
  · next hcut =>
    cases hopening.symm.trans hcut
    split
    · next hcut' => exact absurd (hclosing.symm.trans hcut') (Option.some_ne_none _)
    · next hcut' =>
      cases hclosing.symm.trans hcut'
      rfl

end

/-! ## Both ends of a list -/

omit [DecidableEq α] in
/-- Without the elements at both ends that satisfy `p`. -/
def trimEnds (p : α → Bool) (l : List α) : List α := (l.dropWhile p).rdropWhile p

section

variable {p : α → Bool}

omit [DecidableEq α] in
theorem dropWhile_trimEnds (l : List α) : (trimEnds p l).dropWhile p = trimEnds p l := by
  have hprefix : trimEnds p l <+: l.dropWhile p := List.rdropWhile_prefix ..
  cases htrim : trimEnds p l with
  | nil => rfl
  | cons c rest =>
    obtain ⟨t, ht⟩ := hprefix
    rw [htrim, List.cons_append] at ht
    have hne : l.dropWhile p ≠ [] := by simp [← ht]
    have hhead := List.head_dropWhile_not p hne
    simp only [← ht, List.head_cons] at hhead
    exact List.dropWhile_cons_of_neg (by simp [hhead])

omit [DecidableEq α] in
theorem trimEnds_trimEnds (l : List α) : trimEnds p (trimEnds p l) = trimEnds p l := by
  rw [trimEnds, dropWhile_trimEnds]
  exact List.rdropWhile_idempotent ..

omit [DecidableEq α] in
theorem trimEnds_around {x y : α} (hx : p x = true) (hy : p y = true) (l : List α) :
    trimEnds p (x :: (l ++ [y])) = trimEnds p l := by
  rw [trimEnds, List.dropWhile_cons_of_pos hx, List.dropWhile_append]
  split
  · next hempty =>
    rw [trimEnds, List.isEmpty_iff.mp hempty, List.dropWhile_cons_of_pos hy]
    rfl
  · exact List.rdropWhile_concat_pos _ _ _ hy

end

/-! ## Markers on lines of their own -/

/-- Every line with a newline at its end. -/
def unlines (newline : α) (lines : List (List α)) : List α := lines.flatMap (· ++ [newline])

omit [DecidableEq α] in
theorem unlines_append (newline : α) (lines lines' : List (List α)) :
    unlines newline (lines ++ lines') = unlines newline lines ++ unlines newline lines' :=
  List.flatMap_append

omit [DecidableEq α] in
theorem unlines_cons (newline : α) (line : List α) (lines : List (List α)) :
    unlines newline (line :: lines) = line ++ newline :: unlines newline lines := by
  rw [unlines, List.flatMap_cons, List.append_assoc]
  rfl

omit [DecidableEq α] in
theorem intercalate_newline (newline : α) {lines : List (List α)} (hne : lines ≠ []) :
    [newline].intercalate lines ++ [newline] = unlines newline lines := by
  induction lines with
  | nil => exact absurd rfl hne
  | cons line lines ih =>
    cases lines with
    | nil => rw [List.intercalate_singleton, unlines_cons]; rfl
    | cons next rest =>
      rw [List.intercalate_cons_cons, unlines_cons, ← ih (List.cons_ne_nil _ _)]
      simp only [List.append_assoc, List.cons_append, List.nil_append]

theorem splitOn_unlines (newline : α) {lines : List (List α)}
    (hlines : ∀ line ∈ lines, newline ∉ line) (rest : List α) :
    (unlines newline lines ++ rest).splitOn newline = lines ++ rest.splitOn newline := by
  induction lines with
  | nil => rfl
  | cons line lines ih =>
    rw [List.forall_mem_cons] at hlines
    rw [unlines_cons, List.append_assoc, List.cons_append, List.splitOn_append_cons_self,
      List.splitOn_eq_singleton hlines.1, ih hlines.2]
    rfl

/-- The newlines at the beginning are those of the empty lines. -/
theorem dropWhile_unlines {newline : α} {lines : List (List α)} (h : ∀ line ∈ lines, newline ∉ line) :
    (unlines newline lines).dropWhile (· = newline) = unlines newline (lines.dropWhile (· = [])) := by
  induction lines with
  | nil => rfl
  | cons line lines ih =>
    rw [List.forall_mem_cons] at h
    rw [unlines_cons]
    cases line with
    | nil =>
      rw [List.nil_append, List.dropWhile_cons_of_pos (by simp), ih h.2,
        List.dropWhile_cons_of_pos (by simp)]
    | cons c line =>
      have hc : c ≠ newline := fun h' => h.1 (h' ▸ List.mem_cons_self)
      rw [List.cons_append, List.dropWhile_cons_of_neg (by simpa using hc),
        List.dropWhile_cons_of_neg (by simp), unlines_cons]
      rfl

theorem rdropWhile_unlines {newline : α} {lines : List (List α)} (h : ∀ line ∈ lines, newline ∉ line) :
    (unlines newline lines).rdropWhile (· = newline) =
      [newline].intercalate (lines.rdropWhile (· = [])) := by
  induction lines using List.reverseRecOn with
  | nil => rfl
  | append_singleton lines line ih =>
    obtain ⟨hlines, hline⟩ := List.forall_mem_append.mp h
    have hend : unlines newline (lines ++ [line]) = unlines newline lines ++ line ++ [newline] := by
      rw [unlines_append, unlines_cons, List.append_assoc]
      rfl
    rw [hend, List.rdropWhile_concat_pos _ _ _ (by simp)]
    cases hlast : line.getLast? with
    | none =>
      rw [List.getLast?_eq_none_iff.mp hlast, List.append_nil, ih hlines,
        List.rdropWhile_concat_pos _ _ _ (by simp)]
    | some c =>
      obtain ⟨front, hfront⟩ := List.getLast?_eq_some_iff.mp hlast
      have hc : c ≠ newline := fun h' =>
        hline line (List.mem_singleton_self _) (h' ▸ hfront ▸ List.mem_append_right _ (.head _))
      have hne : line ≠ [] := fun h' => by rw [h'] at hlast; cases hlast
      have hjoin : [newline].intercalate (lines ++ [line]) = unlines newline lines ++ line :=
        List.append_cancel_right ((intercalate_newline newline (by simp)).trans hend)
      rw [List.rdropWhile_concat_neg _ _ _ (by simpa using hne), hjoin, hfront, ← List.append_assoc,
        List.rdropWhile_concat_neg _ _ _ (by simpa using hc)]

omit [DecidableEq α] in
/-- A word without a newline is in one line. -/
theorem exists_mem_of_infix_unlines {newline : α} {word : List α} (hne : word ≠ [])
    (hword : newline ∉ word) {lines : List (List α)} (h : word <:+: unlines newline lines) :
    ∃ line ∈ lines, word <:+: line := by
  induction lines with
  | nil => exact absurd (List.infix_nil.mp h) hne
  | cons line lines ih =>
    obtain ⟨s, t, hst⟩ := h
    rw [unlines_cons, List.append_assoc] at hst
    rcases List.append_eq_append_iff.mp hst with ⟨a, hline, hrest⟩ | ⟨a, hs, hrest⟩
    · -- The word begins in the line; it ends there since it has no newline.
      rcases List.append_eq_append_iff.mp hrest with ⟨b, ha, -⟩ | ⟨b, hwordeq, hlast⟩
      · exact ⟨line, List.mem_cons_self, s, b, by rw [hline, ha, List.append_assoc]⟩
      · cases b with
        | nil => exact ⟨line, List.mem_cons_self, s, [], by rw [hline, hwordeq]; simp⟩
        | cons c b =>
          have hc : newline = c := (List.cons.inj hlast).1
          exact absurd (hwordeq ▸ hc ▸ List.mem_append_right a List.mem_cons_self) hword
    · cases a with
      | nil =>
        cases word with
        | nil => exact absurd rfl hne
        | cons c word => exact absurd ((List.cons.inj hrest).1 ▸ List.mem_cons_self) hword
      | cons c a =>
        obtain ⟨found, hmem, hfound⟩ := ih ⟨a, t, by
          rw [List.append_assoc]
          exact (List.cons.inj hrest).2.symm⟩
        exact ⟨found, List.mem_cons_of_mem _ hmem, hfound⟩

/-- The first block, where the markers are lines of their own. -/
theorem eraseBlocks_unlines {opening closing : Marker α} {newline : α}
    (hopening : newline ∉ opening.word) (hclosing : newline ∉ closing.word)
    {before body : List (List α)} (hbefore : ∀ line ∈ before, ¬ opening.word <:+: line)
    (hbody : ∀ line ∈ body, ¬ closing.word <:+: line) (rest : List (List α)) :
    eraseBlocks opening closing newline
        (unlines newline (before ++ opening.word :: (body ++ closing.word :: rest))) =
      unlines newline before ++ eraseBlocks opening closing newline (unlines newline rest) := by
  have houtside : ¬ opening.word <:+: unlines newline before := fun h => by
    obtain ⟨line, hline, hfound⟩ := exists_mem_of_infix_unlines opening.word_ne_nil hopening h
    exact hbefore line hline hfound
  have hinside : ¬ closing.word <:+: newline :: unlines newline body := fun h => by
    have hlines : closing.word <:+: unlines newline ([] :: body) := by
      rw [unlines_cons]
      exact h
    obtain ⟨line, hline, hfound⟩ := exists_mem_of_infix_unlines closing.word_ne_nil hclosing hlines
    rcases List.mem_cons.mp hline with rfl | hmem
    · exact closing.word_ne_nil (List.infix_nil.mp hfound)
    · exact hbody line hmem hfound
  have htext : unlines newline (before ++ opening.word :: (body ++ closing.word :: rest)) =
      unlines newline before ++ (opening.word ++ ((newline :: unlines newline body) ++
        (closing.word ++ newline :: unlines newline rest))) := by
    rw [unlines_append, unlines_cons, unlines_append, unlines_cons]
    rfl
  have hdrop : dropNewline newline (newline :: unlines newline rest) = unlines newline rest :=
    if_pos rfl
  rw [htext, eraseBlocks_block newline houtside hinside, hdrop]

end CliProxy.Lib
