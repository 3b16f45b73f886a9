import Mathlib.Data.List.Basic

/-!
# Delimited lines

A stream is cut at every occurrence of a delimiter `d`.  `lines d s` are the pieces of `s` that
end in one, without it and in the order they come, and `rest d s` is what is left behind the last
delimiter.  `isCut_iff` says that there is no other way to read `s` so.

A reader that gets the stream in pieces keeps the rest of what it has cut so far and puts the next
piece behind it: `lines_append` says that it then misses no line and makes none up.
-/

set_option autoImplicit false

namespace Lines

variable {α : Type*} [DecidableEq α]

/-- Cut `s` at `d`; `cur` is what came before the first element of `s`. -/
def cut (d : α) (cur : List α) : List α → List (List α) × List α
  | [] => ([], cur)
  | a :: s =>
      if a = d then (cur :: (cut d [] s).1, (cut d [] s).2) else cut d (cur ++ [a]) s

/-- The pieces that end in a delimiter. -/
def lines (d : α) (s : List α) : List (List α) := (cut d [] s).1

/-- What is behind the last delimiter. -/
def rest (d : α) (s : List α) : List α := (cut d [] s).2

/-- `s` is the lines `ls`, each ended by a delimiter, and then `r`. -/
structure IsCut (d : α) (s : List α) (ls : List (List α)) (r : List α) : Prop where
  text : (ls.map (· ++ [d])).flatten ++ r = s
  line_clean : ∀ l ∈ ls, d ∉ l
  rest_clean : d ∉ r

theorem cut_append (d : α) (cur s t : List α) :
    cut d cur (s ++ t) =
      ((cut d cur s).1 ++ (cut d (cut d cur s).2 t).1, (cut d (cut d cur s).2 t).2) := by
  induction s generalizing cur with
  | nil => rfl
  | cons a s ih =>
    rw [List.cons_append, cut, cut]
    split
    · simp only [ih, List.cons_append]
    · exact ih _

theorem cut_of_notMem {d : α} {s : List α} (h : d ∉ s) (cur : List α) :
    cut d cur s = ([], cur ++ s) := by
  induction s generalizing cur with
  | nil => simp [cut]
  | cons a s ih =>
    rw [List.mem_cons, not_or] at h
    rw [cut, if_neg (Ne.symm h.1), ih h.2, List.append_assoc, List.singleton_append]

theorem notMem_cut_snd {d : α} {cur : List α} (h : d ∉ cur) (s : List α) :
    d ∉ (cut d cur s).2 := by
  induction s generalizing cur with
  | nil => exact h
  | cons a s ih =>
    rw [cut]
    split
    · exact ih List.not_mem_nil
    · next hne => exact ih (by simp [h, Ne.symm hne])

theorem notMem_rest (d : α) (s : List α) : d ∉ rest d s := notMem_cut_snd List.not_mem_nil s

/-! ## Cutting piece by piece -/

theorem lines_of_notMem {d : α} {s : List α} (h : d ∉ s) : lines d s = [] := by
  rw [lines, cut_of_notMem h]

theorem rest_of_notMem {d : α} {s : List α} (h : d ∉ s) : rest d s = s := by
  rw [rest, cut_of_notMem h, List.nil_append]

/-- Behind what was cut before, the next piece is cut as if the rest stood in front of it. -/
theorem cut_rest (d : α) (s t : List α) : cut d (rest d s) t = cut d [] (rest d s ++ t) := by
  rw [cut_append, cut_of_notMem (notMem_rest d s), List.nil_append, List.nil_append]

/-- **No line is lost between two pieces.**  The lines of the whole are those of the first piece
and then those of its rest with the second piece behind it. -/
theorem lines_append (d : α) (s t : List α) :
    lines d (s ++ t) = lines d s ++ lines d (rest d s ++ t) := by
  rw [lines, cut_append, lines, lines, ← cut_rest, rest]

/-- The first line, and the cut of what is behind it. -/
theorem lines_cons_line {d : α} {l : List α} (h : d ∉ l) (s : List α) :
    lines d (l ++ d :: s) = l :: lines d s := by
  rw [lines, cut_append, cut_of_notMem h, cut, if_pos rfl, List.nil_append, List.nil_append, lines]

theorem rest_cons_line {d : α} {l : List α} (h : d ∉ l) (s : List α) :
    rest d (l ++ d :: s) = rest d s := by
  rw [rest, cut_append, cut_of_notMem h, cut, if_pos rfl, rest]

/-- There is a line exactly where there is a delimiter. -/
theorem lines_eq_nil_iff {d : α} {s : List α} : lines d s = [] ↔ d ∉ s := by
  refine ⟨fun h hmem ↦ ?_, lines_of_notMem⟩
  obtain ⟨l, t, rfl, hl⟩ := List.eq_append_cons_of_mem hmem
  rw [lines_cons_line hl] at h
  exact List.cons_ne_nil _ _ h

/-! ## There is one way to cut -/

theorem isCut_cut {d : α} {cur : List α} (h : d ∉ cur) (s : List α) :
    IsCut d (cur ++ s) (cut d cur s).1 (cut d cur s).2 := by
  induction s generalizing cur with
  | nil => exact ⟨(List.append_nil cur).symm, fun l hl ↦ absurd hl List.not_mem_nil, h⟩
  | cons a s ih =>
    rw [cut]
    split
    · next heq =>
      have hnil : d ∉ ([] : List α) := List.not_mem_nil
      obtain ⟨htext, hline, hrest⟩ := ih hnil
      refine ⟨?_, ?_, hrest⟩
      · rw [List.map_cons, List.flatten_cons, List.append_assoc, htext, heq]
        simp
      · simpa [h] using hline
    · next hne =>
      have hcur : d ∉ cur ++ [a] := by simp [h, Ne.symm hne]
      have := ih hcur
      rwa [List.append_assoc, List.singleton_append] at this

theorem isCut_lines (d : α) (s : List α) : IsCut d s (lines d s) (rest d s) :=
  isCut_cut List.not_mem_nil s

/-- **The cut is unique**: lines without the delimiter, each ended by one, and a rest without it
are the lines and the rest. -/
theorem isCut_iff {d : α} {s : List α} {ls : List (List α)} {r : List α} :
    IsCut d s ls r ↔ ls = lines d s ∧ r = rest d s := by
  constructor
  · rintro ⟨rfl, hline, hrest⟩
    induction ls with
    | nil => exact ⟨(lines_of_notMem hrest).symm, (rest_of_notMem hrest).symm⟩
    | cons l ls ih =>
      rw [List.forall_mem_cons] at hline
      obtain ⟨hls, hr⟩ := ih hline.2
      have htext : ((l :: ls).map (· ++ [d])).flatten ++ r =
          l ++ d :: ((ls.map (· ++ [d])).flatten ++ r) := by simp
      rw [htext, lines_cons_line hline.1, rest_cons_line hline.1, ← hls]
      exact ⟨rfl, hr⟩
  · rintro ⟨rfl, rfl⟩
    exact isCut_lines d s

/-! ## Writing lines -/

omit [DecidableEq α] in
/-- One more line, behind nothing but lines. -/
theorem IsCut.snoc {d : α} {s l : List α} {ls : List (List α)} (h : IsCut d s ls [])
    (hl : d ∉ l) : IsCut d (s ++ (l ++ [d])) (ls ++ [l]) [] := by
  refine ⟨?_, ?_, List.not_mem_nil⟩
  · rw [← h.text]
    simp
  · simpa [or_imp, forall_and] using ⟨h.line_clean, hl⟩

omit [DecidableEq α] in
/-- The beginning of one. -/
theorem IsCut.begin {d : α} {s r : List α} {ls : List (List α)} (h : IsCut d s ls [])
    (hr : d ∉ r) : IsCut d (s ++ r) ls r := by
  refine ⟨?_, h.line_clean, hr⟩
  rw [← h.text, List.append_nil]

end Lines
