import LateBinding.Files.Path
import Mathlib.Data.List.Basic

set_option autoImplicit false

/-! # The parts of a path name

Of the parts of a path name only some lead anywhere, its `steps`; the others stand for the directory
that they are in. `Path.join` adds one step, whether or not the path name ends in a slash already.
-/

namespace LateBinding.Path

/-! ## Splitting -/

theorem splitChars_ne_nil (cs : List Char) : splitChars cs ≠ [] := by
  cases cs with
  | nil => exact List.cons_ne_nil _ _
  | cons c cs =>
      unfold splitChars
      split
      · exact List.cons_ne_nil _ _
      · split
        · exact List.cons_ne_nil _ _
        · exact List.cons_ne_nil _ _

theorem splitChars_of_not_mem {cs : List Char} (h : '/' ∉ cs) : splitChars cs = [cs] := by
  induction cs with
  | nil => rfl
  | cons c cs ih =>
      have hc : c ≠ '/' := fun hc => h (hc ▸ List.mem_cons_self ..)
      have hcs : '/' ∉ cs := fun hcs => h (List.mem_cons_of_mem c hcs)
      rw [splitChars, if_neg hc, ih hcs]

/-- A slash separates what is before it from what is after it. -/
theorem splitChars_append (as bs : List Char) :
    splitChars (as ++ '/' :: bs) = splitChars as ++ splitChars bs := by
  induction as with
  | nil => rfl
  | cons c as ih =>
      rw [List.cons_append, splitChars, splitChars]
      by_cases hc : c = '/'
      · rw [if_pos hc, if_pos hc, ih, List.cons_append]
      · rw [if_neg hc, if_neg hc, ih]
        cases has : splitChars as with
        | nil => exact absurd has (splitChars_ne_nil as)
        | cons part parts => rfl

theorem parts_append (above below : String) :
    parts (above ++ "/" ++ below) = parts above ++ parts below := by
  have hchars : (above ++ "/" ++ below).toList = above.toList ++ '/' :: below.toList := by simp
  rw [parts, hchars, splitChars_append, List.map_append]
  rfl

/-! ## Names and steps -/

/-- What something in a directory can be called. -/
structure IsName (name : String) : Prop where
  notDot : isDot name = false
  notUp : name ≠ ".."
  noSlash : '/' ∉ name.toList
  short : name.utf8ByteSize ≤ partLimit

/-- The parts of a path name that lead away from the directory that they are in. -/
def steps (path : String) : List String := (parts path).filter fun part => !isDot part

variable {path name : String}

theorem IsName.ne_empty (h : IsName name) : name ≠ "" := by
  rintro rfl
  exact Bool.false_ne_true h.notDot.symm

theorem parts_of_not_mem (h : '/' ∉ name.toList) : parts name = [name] := by
  rw [parts, splitChars_of_not_mem h]
  simp

theorem IsName.parts (h : IsName name) : parts name = [name] := parts_of_not_mem h.noSlash

theorem IsName.isAbsolute (h : IsName name) : isAbsolute name = false := by
  unfold Path.isAbsolute
  rw [decide_eq_false_iff_not]
  exact fun hhead => h.noSlash (List.mem_of_head? hhead)

/-- A path name that ends in a slash is one without it and an empty part. -/
theorem exists_of_endsInSlash (h : endsInSlash path) : ∃ above, path = above ++ "/" := by
  obtain ⟨as, has⟩ := List.getLast?_eq_some_iff.1 (of_decide_eq_true h)
  refine ⟨String.ofList as, String.toList_injective ?_⟩
  rw [has, String.toList_append, String.toList_ofList]
  rfl

/-- Joined to a path name, a name is the last part, and what is before it leads where the path name
does. -/
theorem parts_join (hpath : path ≠ "") (h : IsName name) :
    ∃ above, parts (join path name) = above ++ [name] ∧
      (above.filter fun part => !isDot part) = steps path := by
  unfold join
  rw [h.isAbsolute, Bool.false_or, if_neg (by simpa using hpath)]
  split
  -- the empty part after a slash at the end is no step
  · next hslash =>
      obtain ⟨above, rfl⟩ := exists_of_endsInSlash hslash
      refine ⟨parts above, ?_, ?_⟩
      · rw [parts_append, h.parts]
      · have hparts : parts (above ++ "/") = parts above ++ [""] := by
          have hempty : above ++ "/" = above ++ "/" ++ "" := by simp
          rw [hempty, parts_append]
          rfl
        rw [steps, hparts, List.filter_append]
        exact (List.append_nil _).symm
  · exact ⟨parts path, by rw [parts_append, h.parts], rfl⟩

/-- A joined name is one step more. -/
theorem steps_join (hpath : path ≠ "") (h : IsName name) :
    steps (join path name) = steps path ++ [name] := by
  obtain ⟨above, hparts, habove⟩ := parts_join hpath h
  rw [steps, hparts, List.filter_append, habove, List.filter_cons, h.notDot]
  rfl

theorem fileName?_join (hpath : path ≠ "") (h : IsName name) :
    fileName? (join path name) = some name := by
  have hlast : (steps (join path name)).getLast? = some name := by
    rw [steps_join hpath h, List.getLast?_append]
    rfl
  unfold fileName?
  unfold steps at hlast
  rw [hlast]
  exact if_neg h.notUp

theorem join_eq_append (hpath : path ≠ "") (h : IsName name) :
    join path name = path ++ name ∨ join path name = path ++ "/" ++ name := by
  unfold join
  rw [h.isAbsolute, Bool.false_or, if_neg (by simpa using hpath)]
  split
  · exact .inl rfl
  · exact .inr rfl

theorem isAbsolute_join (hpath : path ≠ "") (h : IsName name) :
    isAbsolute (join path name) = isAbsolute path := by
  have hhead (rest : String) : (path ++ rest).toList.head? = path.toList.head? := by
    rw [String.toList_append]
    exact List.head?_append_of_ne_nil _ (by simpa using hpath)
  unfold isAbsolute
  rcases join_eq_append hpath h with hjoin | hjoin
  · rw [hjoin, hhead]
  · rw [hjoin, String.append_assoc, hhead]

theorem utf8ByteSize_pos (hpath : path ≠ "") : 0 < path.utf8ByteSize :=
  Nat.pos_of_ne_zero fun hzero => hpath (String.utf8ByteSize_eq_zero_iff.1 hzero)

/-- A path name grows with every step. -/
theorem utf8ByteSize_lt_join (hpath : path ≠ "") (h : IsName name) :
    path.utf8ByteSize < (join path name).utf8ByteSize := by
  have hname : 0 < name.utf8ByteSize := utf8ByteSize_pos h.ne_empty
  rcases join_eq_append hpath h with hjoin | hjoin
  · rw [hjoin, String.utf8ByteSize_append]
    omega
  · rw [hjoin, String.utf8ByteSize_append, String.utf8ByteSize_append]
    omega

theorem join_ne_empty (hpath : path ≠ "") (h : IsName name) : join path name ≠ "" := by
  intro hempty
  have hlt := utf8ByteSize_lt_join hpath h
  rw [hempty] at hlt
  exact Nat.not_lt_zero _ hlt

end LateBinding.Path
