import Mathlib.Data.List.Basic
import Mathlib.Data.List.Induction

/-! # Readers of lines

A reader collects a text that arrives in chunks and handles each line once it is complete. A line
whose handling throws ends the call that handles it. -/

namespace CliProxy.Lib

section

variable {α : Type*} [DecidableEq α]

theorem splitOn_cons (newline c : α) (text : List α) : (c :: text).splitOn newline =
    if c = newline then [] :: text.splitOn newline
    else (text.splitOn newline).modifyHead (c :: ·) := by
  rw [List.splitOn_cons_eq_if_modifyHead]
  simp only [beq_iff_eq]

/-- The lines of a text that is continued. -/
theorem splitOn_append (newline : α) (text chunk : List α) :
    (text ++ chunk).splitOn newline = (text.splitOn newline).dropLast ++
      ((text.splitOn newline).getLastD [] ++ chunk).splitOn newline := by
  induction text with
  | nil => rfl
  | cons c text ih =>
    rw [List.cons_append, splitOn_cons, splitOn_cons]
    have hne := List.splitOn_ne_nil newline text
    split
    next =>
      rw [ih, List.dropLast_cons_of_ne_nil hne]
      cases hlines : text.splitOn newline with
      | nil => exact absurd hlines hne
      | cons line lines => rfl
    next hc =>
      rw [ih]
      cases hlines : text.splitOn newline with
      | nil => exact absurd hlines hne
      | cons line lines =>
        cases lines with
        | nil =>
          show List.modifyHead (c :: ·) ((line ++ chunk).splitOn newline) =
            (c :: (line ++ chunk)).splitOn newline
          rw [splitOn_cons, if_neg hc]
        | cons line' lines => rfl

/-! ## Joined fields -/

theorem length_le_count_intercalate (newline : α) (fields : List (List α)) :
    fields.length ≤ ([newline].intercalate fields).count newline + 1 := by
  induction fields with
  | nil => exact Nat.zero_le _
  | cons field fields ih =>
    cases fields with
    | nil => exact Nat.le_add_left _ _
    | cons next rest =>
      rw [List.intercalate_cons_cons, List.count_append, List.count_append,
        List.count_singleton_self, List.length_cons]
      omega

/-- Fields that hold no line break are split where they were joined. -/
theorem count_intercalate_lt {newline : α} {fields : List (List α)} (hne : fields ≠ []) :
    ([newline].intercalate fields).count newline < fields.length ↔
      ∀ field ∈ fields, newline ∉ field := by
  induction fields with
  | nil => exact absurd rfl hne
  | cons field fields ih =>
    cases fields with
    | nil =>
      rw [List.intercalate_singleton, List.forall_mem_singleton, List.length_singleton,
        Nat.lt_one_iff, List.count_eq_zero]
    | cons next rest =>
      have hrest := length_le_count_intercalate newline (next :: rest)
      rw [List.intercalate_cons_cons, List.count_append, List.count_append,
        List.count_singleton_self, List.forall_mem_cons, ← ih (List.cons_ne_nil _ _),
        ← List.count_eq_zero, List.length_cons]
      omega

/-- Equally many fields that are joined to one text are the same, if those of one side hold no
line break. -/
theorem intercalate_inj {newline : α} {fields fields' : List (List α)}
    (hfields : ∀ field ∈ fields, newline ∉ field) (hlength : fields'.length = fields.length)
    (h : [newline].intercalate fields = [newline].intercalate fields') : fields = fields' := by
  cases fields with
  | nil => exact (List.eq_nil_of_length_eq_zero hlength).symm
  | cons field fields =>
    have hne : fields' ≠ [] := List.ne_nil_of_length_eq_add_one hlength
    have hfields' := (count_intercalate_lt hne).mp
      (hlength ▸ h ▸ (count_intercalate_lt (List.cons_ne_nil _ _)).mpr hfields)
    rw [← List.splitOn_intercalate newline hfields (List.cons_ne_nil _ _), h,
      List.splitOn_intercalate newline hfields' hne]

end

theorem getLastD_append_of_ne_nil {α : Type*} (a : List α) {b : List α} (h : b ≠ []) (d : α) :
    (a ++ b).getLastD d = b.getLastD d := by
  rw [List.getLastD_eq_getLast?, List.getLastD_eq_getLast?, List.getLast?_append_of_ne_nil a h]

theorem dropLast_append_getLastD {α : Type*} {a : List α} (h : a ≠ []) (d : α) :
    a.dropLast ++ [a.getLastD d] = a := by
  rw [List.getLastD_eq_getLast?, List.getLast?_eq_some_getLast h, Option.getD_some,
    List.dropLast_append_getLast]

/-- What a line makes the reader call; the second component says that handling it does not throw.
A blank line is not handled at the end. -/
structure LineHandler (α κ : Type*) where
  newline : α
  blank : List α → Bool
  handle : List α → List κ × Bool
  handle_blank : ∀ line, blank line = true → handle line = ([], true)

structure LineReader (α κ : Type*) where
  buffer : List α
  calls : List κ
  /-- A call has thrown. -/
  threw : Bool

namespace LineReader

variable {α κ : Type*} (H : LineHandler α κ)

def init : LineReader α κ := ⟨[], [], false⟩

def handleLine (r : LineReader α κ) (line : List α) : LineReader α κ × Bool :=
  ({ r with calls := r.calls ++ (H.handle line).1, threw := r.threw || !(H.handle line).2 },
    (H.handle line).2)

/-- The loop over the lines, which ends where one throws. -/
def handleLines (r : LineReader α κ) : List (List α) → LineReader α κ
  | [] => r
  | line :: lines =>
    match r.handleLine H line with
    | (r, true) => r.handleLines lines
    | (r, false) => r

/-- Every line can be handled. -/
def Handles (lines : List (List α)) : Prop := ∀ line ∈ lines, (H.handle line).2 = true

/-- The calls for lines that are each handled once, in order. -/
def callsOf (lines : List (List α)) : List κ := lines.flatMap fun line => (H.handle line).1

def flush (r : LineReader α κ) : LineReader α κ :=
  if H.blank r.buffer then { r with buffer := [] }
  else match r.handleLine H r.buffer with
    | (r, true) => { r with buffer := [] }
    | (r, false) => r

variable {H}

theorem handles_append {lines lines' : List (List α)} :
    Handles H (lines ++ lines') ↔ Handles H lines ∧ Handles H lines' := List.forall_mem_append

theorem handleLines_threw {r : LineReader α κ} (h : r.threw = true) (lines : List (List α)) :
    (r.handleLines H lines).threw = true := by
  induction lines generalizing r with
  | nil => exact h
  | cons line lines ih =>
    unfold handleLines handleLine
    cases (H.handle line).2 with
    | true => exact ih (by simp [h])
    | false => simp

theorem handleLines_of_handles (r : LineReader α κ) {lines : List (List α)}
    (h : Handles H lines) :
    r.handleLines H lines = { r with calls := r.calls ++ callsOf H lines } := by
  induction lines generalizing r with
  | nil => simp [handleLines, callsOf]
  | cons line lines ih =>
    have hline := h line List.mem_cons_self
    unfold handleLines handleLine
    rw [hline]
    dsimp only
    rw [ih _ fun line' hmem => h line' (List.mem_cons_of_mem line hmem)]
    simp [callsOf]

theorem handleLines_of_not_handles (r : LineReader α κ) {lines : List (List α)}
    (h : ¬Handles H lines) : (r.handleLines H lines).threw = true := by
  induction lines generalizing r with
  | nil => exact absurd (List.forall_mem_nil _) h
  | cons line lines ih =>
    unfold handleLines handleLine
    cases hline : (H.handle line).2 with
    | true => exact ih _ fun hrest => h (List.forall_mem_cons.mpr ⟨hline, hrest⟩)
    | false => simp

theorem flush_threw {r : LineReader α κ} (h : r.threw = true) : (r.flush H).threw = true := by
  unfold flush handleLine
  split
  next => exact h
  next =>
    cases (H.handle r.buffer).2 with
    | true => simp [h]
    | false => simp

/-- The end of the text handles the last line. -/
theorem flush_of_handles (r : LineReader α κ) (h : (H.handle r.buffer).2 = true) :
    r.flush H = ⟨[], r.calls ++ (H.handle r.buffer).1, r.threw⟩ := by
  unfold flush handleLine
  split
  next hblank => rw [H.handle_blank _ hblank, List.append_nil]
  next =>
    rw [h]
    simp

theorem flush_of_not_handles (r : LineReader α κ) (h : (H.handle r.buffer).2 = false) :
    (r.flush H).threw = true := by
  unfold flush handleLine
  split
  next hblank =>
    rw [H.handle_blank _ hblank] at h
    exact absurd h.symm Bool.false_ne_true
  next =>
    rw [h]
    simp

/-! ## Chunks -/

variable [DecidableEq α] (H)

/-- The last line is kept until it is complete. -/
def push (r : LineReader α κ) (chunk : List α) : LineReader α κ :=
  let lines := (r.buffer ++ chunk).splitOn H.newline
  { r with buffer := lines.getLastD [] }.handleLines H lines.dropLast

/-- The text arrives in chunks and ends. -/
def run (chunks : List (List α)) : LineReader α κ := (chunks.foldl (push H) init).flush H

variable {H}

/-- The reader has read the text: it has handled its complete lines. -/
structure HasRead (H : LineHandler α κ) (text : List α) (r : LineReader α κ) : Prop where
  threw : r.threw = false ↔ Handles H (text.splitOn H.newline).dropLast
  buffer : r.threw = false → r.buffer = (text.splitOn H.newline).getLastD []
  calls : r.threw = false → r.calls = callsOf H (text.splitOn H.newline).dropLast

theorem hasRead_init : HasRead H [] init where
  threw := iff_of_true rfl (List.forall_mem_nil _)
  buffer _ := rfl
  calls _ := rfl

theorem HasRead.push {text : List α} {r : LineReader α κ} (hread : HasRead H text r)
    (chunk : List α) : HasRead H (text ++ chunk) (r.push H chunk) := by
  have hsplit := splitOn_append H.newline text chunk
  have hne := List.splitOn_ne_nil H.newline ((text.splitOn H.newline).getLastD [] ++ chunk)
  have hlast : ((text ++ chunk).splitOn H.newline).getLastD [] =
      (((text.splitOn H.newline).getLastD [] ++ chunk).splitOn H.newline).getLastD [] := by
    rw [hsplit, getLastD_append_of_ne_nil _ hne]
  have hinit : ((text ++ chunk).splitOn H.newline).dropLast =
      (text.splitOn H.newline).dropLast ++
        (((text.splitOn H.newline).getLastD [] ++ chunk).splitOn H.newline).dropLast := by
    rw [hsplit, List.dropLast_append_of_ne_nil hne]
  cases hthrew : r.threw with
  | true =>
    have hpushed : (r.push H chunk).threw = true := handleLines_threw (by exact hthrew) _
    have hbad : ¬Handles H (text.splitOn H.newline).dropLast := by
      rw [← hread.threw, hthrew]
      exact Bool.false_ne_true.symm
    refine ⟨iff_of_false ?_ ?_, fun h => ?_, fun h => ?_⟩
    · rw [hpushed]
      exact Bool.false_ne_true.symm
    · rw [hinit, handles_append]
      exact fun h => hbad h.1
    · exact absurd (h.symm.trans hpushed) Bool.false_ne_true
    · exact absurd (h.symm.trans hpushed) Bool.false_ne_true
  | false =>
    have hgood := hread.threw.mp hthrew
    unfold LineReader.push
    dsimp only
    rw [hread.buffer hthrew]
    by_cases hnew : Handles H
        (((text.splitOn H.newline).getLastD [] ++ chunk).splitOn H.newline).dropLast
    · rw [handleLines_of_handles _ hnew]
      refine ⟨iff_of_true hthrew ?_, fun _ => hlast.symm, fun _ => ?_⟩
      · rw [hinit, handles_append]
        exact ⟨hgood, hnew⟩
      · rw [hinit, hread.calls hthrew]
        exact List.flatMap_append.symm
    · have hpushed := handleLines_of_not_handles
        { r with buffer := (((text.splitOn H.newline).getLastD [] ++ chunk).splitOn
          H.newline).getLastD [] } hnew
      refine ⟨iff_of_false ?_ ?_, fun h => ?_, fun h => ?_⟩
      · rw [hpushed]
        exact Bool.false_ne_true.symm
      · rw [hinit, handles_append]
        exact fun h => hnew h.2
      · exact absurd (h.symm.trans hpushed) Bool.false_ne_true
      · exact absurd (h.symm.trans hpushed) Bool.false_ne_true

theorem hasRead_foldl (chunks : List (List α)) :
    HasRead H chunks.flatten (chunks.foldl (push H) init) := by
  induction chunks using List.reverseRecOn with
  | nil => exact hasRead_init
  | append_singleton chunks chunk ih =>
    rw [List.foldl_append, List.flatten_append, List.flatten_singleton]
    exact ih.push chunk

/-- No call throws and every line is handled once in order, iff every line can be handled. -/
theorem run_iff (chunks : List (List α)) :
    (run H chunks).threw = false ∧
        (run H chunks).calls = callsOf H (chunks.flatten.splitOn H.newline) ↔
      Handles H (chunks.flatten.splitOn H.newline) := by
  have hread : HasRead H chunks.flatten (chunks.foldl (push H) init) := hasRead_foldl chunks
  have hlines := dropLast_append_getLastD (List.splitOn_ne_nil H.newline chunks.flatten) []
  unfold run
  generalize chunks.foldl (push H) init = r at hread ⊢
  rw [← hlines, handles_append]
  cases hthrew : r.threw with
  | true =>
    refine iff_of_false (fun h => ?_) fun h => ?_
    · exact absurd (h.1.symm.trans (flush_threw hthrew)) Bool.false_ne_true
    · exact absurd ((hread.threw.mpr h.1).symm.trans hthrew) Bool.false_ne_true
  | false =>
    rw [← hread.buffer hthrew]
    cases hlast : (H.handle r.buffer).2 with
    | true =>
      rw [flush_of_handles r hlast]
      refine iff_of_true ⟨hthrew, ?_⟩ ⟨hread.threw.mp hthrew, ?_⟩
      · rw [hread.calls hthrew]
        simp [callsOf]
      · intro line hline
        rw [List.mem_singleton.mp hline, hlast]
    | false =>
      refine iff_of_false (fun h => ?_) fun h => ?_
      · exact absurd (h.1.symm.trans (flush_of_not_handles r hlast)) Bool.false_ne_true
      · exact absurd (hlast.symm.trans (h.2 _ (List.mem_singleton_self _))) Bool.false_ne_true

end LineReader

end CliProxy.Lib
