import TokenForest.Json.Lines
import TokenForest.Proofs.Text

/-!
# Lines of files

Lines without line feeds are found again in the text that they are joined to. Blanks around a line and lines of blanks between the others
make no difference, as long as the lines themselves begin and end with something else.
-/

namespace TokenForest

namespace Json

/-! ## Splitting -/

section

variable {line : List Char} {lines : List String}

theorem splitLines_of_notMem (h : '\n' ∉ line) : splitLines line = [line] := by
  induction line with
  | nil => rfl
  | cons c line ih =>
    obtain ⟨hc, hline⟩ := not_or.1 (mt List.mem_cons.2 h)
    rw [splitLines, if_neg (Ne.symm hc), ih hline]

theorem splitLines_append (h : '\n' ∉ line) (rest : List Char) : splitLines (line ++ '\n' :: rest) = line :: splitLines rest := by
  induction line with
  | nil => rw [List.nil_append, splitLines, if_pos rfl]
  | cons c line ih =>
    obtain ⟨hc, hline⟩ := not_or.1 (mt List.mem_cons.2 h)
    rw [List.cons_append, splitLines, if_neg (Ne.symm hc), ih hline]

/-- Joined lines are found again; no lines are joined to an empty one. -/
theorem splitLines_intercalate (h : ∀ line ∈ lines, '\n' ∉ line.toList) (hne : lines ≠ []) :
    splitLines (String.intercalate "\n" lines).toList = lines.map String.toList := by
  obtain ⟨first, lines, rfl⟩ := List.exists_cons_of_ne_nil hne
  have hfeed : "\n".toList = ['\n'] := rfl
  rw [toList_intercalate_cons]
  induction lines generalizing first with
  | nil => simpa using splitLines_of_notMem (h first (by simp))
  | cons line lines ih =>
    have hrest := ih line (fun l hl => h l (List.mem_cons_of_mem _ hl)) (List.cons_ne_nil _ _)
    rw [List.flatMap_cons, hfeed, List.singleton_append, List.cons_append, splitLines_append (h first (by simp))]
    rw [hfeed] at hrest
    rw [hrest]
    rfl

end

/-! ## Blanks -/

variable {lines spaced : List String}

theorem trim_pad {pad : String} (h : Pad pad) : Text.trim Text.isLineBlank pad.toList = [] := by
  have hnone : ∀ c ∈ ([] : List Char).head?, Text.isLineBlank c = false := by simp
  have hdrop := (takeWhile_append_stop (fun c hc => (h c hc).1) hnone).2
  rw [List.append_nil] at hdrop
  rw [Text.trim, hdrop]
  rfl

theorem trim_padded {front back : String} {line : String} (hline : Framed line) (hfront : Pad front) (hback : Pad back) :
    Text.trim Text.isLineBlank (front ++ line ++ back).toList = line.toList := by
  have hfirst : ∀ c ∈ (line.toList ++ back.toList).head?, Text.isLineBlank c = false := by
    obtain ⟨first, hhead, hblank⟩ := hline.first
    rw [List.head?_append, hhead]
    simpa using hblank
  have hlast : ∀ c ∈ line.toList.reverse.head?, Text.isLineBlank c = false := by
    obtain ⟨last, hend, hblank⟩ := hline.last
    rw [List.head?_reverse, hend]
    simpa using hblank
  have hdrop := (takeWhile_append_stop (fun c hc => (hfront c hc).1) hfirst).2
  have hreverse : ∀ c ∈ back.toList.reverse, Text.isLineBlank c = true := fun c hc => (hback c (List.mem_reverse.1 hc)).1
  have hdrop' := (takeWhile_append_stop hreverse hlast).2
  rw [Text.trim, String.toList_append, String.toList_append, List.append_assoc, hdrop, List.reverse_append, hdrop', List.reverse_reverse]

/-- No line feed comes in with the blanks. -/
theorem Spaced.single (h : Spaced lines spaced) (hlines : ∀ line ∈ lines, Framed line) : ∀ s ∈ spaced, '\n' ∉ s.toList := by
  induction h with
  | nil => simp
  | blank hpad h ih => exact List.forall_mem_cons.2 ⟨fun hfeed => (hpad _ hfeed).2 rfl, ih hlines⟩
  | line line hfront hback h ih =>
    obtain ⟨hline, hrest⟩ := List.forall_mem_cons.1 hlines
    refine List.forall_mem_cons.2 ⟨fun hfeed => ?_, ih hrest⟩
    simp only [String.toList_append, List.mem_append] at hfeed
    rcases hfeed with (hfeed | hfeed) | hfeed
    · exact (hfront _ hfeed).2 rfl
    · exact hline.single hfeed
    · exact (hback _ hfeed).2 rfl

/-- What is left of the lines without blanks and empty lines are the lines. -/
theorem Spaced.filled (h : Spaced lines spaced) (hlines : ∀ line ∈ lines, Framed line) :
    (((spaced.map String.toList).map (Text.trim Text.isLineBlank)).filter (· ≠ [])).map String.ofList = lines := by
  induction h with
  | nil => rfl
  | blank hpad h ih =>
    rw [List.map_cons, List.map_cons, trim_pad hpad, List.filter_cons_of_neg (by simp)]
    exact ih hlines
  | line line hfront hback h ih =>
    obtain ⟨hline, hrest⟩ := List.forall_mem_cons.1 hlines
    have hne : line.toList ≠ [] := by
      obtain ⟨c, hc, _⟩ := hline.first
      intro hnil
      rw [hnil] at hc
      cases hc
    rw [List.map_cons, List.map_cons, trim_padded hline hfront hback, List.filter_cons_of_pos (by simpa using hne), List.map_cons,
      String.ofList_toList, ih hrest]

/-- The lines are read from the text, however they are spaced. -/
theorem filledLines_intercalate (h : Spaced lines spaced) (hlines : ∀ line ∈ lines, Framed line) :
    filledLines (String.intercalate "\n" spaced) = lines := by
  by_cases hne : spaced = []
  · subst hne
    cases h
    rfl
  · rw [filledLines, splitLines_intercalate (h.single hlines) hne, h.filled hlines]

/-- A file is made of its lines and an empty one at the end, or of two empty ones. -/
theorem exists_spaced (lines : List String) : ∃ spaced, Spaced lines spaced ∧
    String.intercalate "\n" lines ++ "\n" = String.intercalate "\n" spaced := by
  have hpad : Pad "" := by simp [Pad]
  have hend : Spaced [] [""] := .blank hpad .nil
  cases lines with
  | nil => exact ⟨["", ""], .blank hpad hend, rfl⟩
  | cons first lines =>
    refine ⟨first :: lines ++ [""], ?_, ?_⟩
    · induction first :: lines with
      | nil => exact hend
      | cons line lines ih => simpa using Spaced.line line hpad hpad ih
    · rw [← String.toList_inj, String.toList_append, List.cons_append, toList_intercalate_cons, toList_intercalate_cons]
      simp

end Json

end TokenForest
