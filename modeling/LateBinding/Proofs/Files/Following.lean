import LateBinding.Proofs.Files.Contents
import LateBinding.Proofs.Files.Path

set_option autoImplicit false

/-! # Path names that lead to directories

`Volume.Leads` says which directory the parts of a path name lead to, part by part: the rules by
which `followParts` finds a directory, without those by which it fails. From a rule for each part,
two facts follow that the function itself hides. Parts that stand for the directory they are in can
be left out or put in (`Leads.of_steps`); and only directories and links matter, so a path name
leads to the same directory when files have changed (`Leads.alike`).

With this, `Volume.Names` and the names in a directory give all that can be done with a file: it is
read and replaced at its place (`Names.read`, `Names.exchange`).
-/

namespace LateBinding

open Codec (Bytes)

namespace Volume

variable {v w : Volume} {links : Nat} {directory place base : Place} {part name path : String}
  {parts parts' : List String}

/-- From a directory, the parts of a path name lead to the directory at `place`, by way of at most
`links` links. -/
inductive Leads (v : Volume) : (links : Nat) → (directory : Place) → (parts : List String) →
    (place : Place) → Prop
  | done {links : Nat} {place : Place} : Leads v links place [] place
  | dot {links : Nat} {directory place : Place} {part : String} {rest : List String}
      (isDot : Path.isDot part = true) (further : Leads v links directory rest place) :
      Leads v links directory (part :: rest) place
  | up {links : Nat} {directory place : Place} {rest : List String}
      (further : Leads v links directory.dropLast rest place) :
      Leads v links directory (".." :: rest) place
  | enter {links : Nat} {directory place : Place} {part : String} {rest : List String}
      (notDot : Path.isDot part = false) (notUp : part ≠ "..")
      (short : part.utf8ByteSize ≤ Path.partLimit)
      (there : v.hasDirectory (directory ++ [part]))
      (further : Leads v links (directory ++ [part]) rest place) :
      Leads v links directory (part :: rest) place
  | link {links : Nat} {directory place : Place} {part target : String} {rest : List String}
      (notDot : Path.isDot part = false) (notUp : part ≠ "..")
      (short : part.utf8ByteSize ≤ Path.partLimit)
      (there : v.kind? (directory ++ [part]) = some (.link target))
      (further : Leads v links (if Path.isAbsolute target then [] else directory)
        (Path.parts target ++ rest) place) :
      Leads v (links + 1) directory (part :: rest) place

/-! ## Following parts -/

/-- A part that is there is looked up, whatever follows it. -/
theorem followParts_cons_of_name (notDot : Path.isDot part = false) (notUp : part ≠ "..")
    (short : part.utf8ByteSize ≤ Path.partLimit) {node : Node}
    (h : v.node? (directory ++ [part]) = some node) (rest : List String) :
    v.followParts false links directory (part :: rest) =
      match node with
      | .directory _ => v.followParts false links (directory ++ [part]) rest
      | .file _ => if rest = [] then .ok (.found (directory ++ [part])) else .error .notDirectory
      | .link target =>
        match links with
        | 0 => .error .tooManyLinks
        | links + 1 =>
          v.followParts false links (if Path.isAbsolute target then [] else directory)
            (Path.parts target ++ rest) := by
  rw [followParts.eq_def]
  simp only [notDot, notUp, Nat.not_lt.2 short, h, Bool.false_eq_true, false_and, if_false]
  cases node with
  | directory _ | file _ => rfl
  | link target => cases links <;> rfl

theorem followParts_cons_of_dot (isDot : Path.isDot part = true) (rest : List String) :
    v.followParts false links directory (part :: rest) =
      v.followParts false links directory rest := by
  rw [followParts.eq_def]
  simp only [isDot, if_true]

theorem followParts_cons_up (rest : List String) :
    v.followParts false links directory (".." :: rest) =
      v.followParts false links directory.dropLast rest := by
  rw [followParts.eq_def]
  exact if_neg (by decide)

/-- Parts that lead to a directory are followed to it, and on from there. -/
theorem Leads.followParts (h : v.Leads links directory parts place) :
    v.followParts false links directory parts = .ok (.found place) := by
  induction h with
  | done => rw [Volume.followParts.eq_def]
  | dot isDot _ ih => rw [followParts_cons_of_dot isDot, ih]
  | up _ ih => rw [followParts_cons_up, ih]
  | enter notDot notUp short there _ ih =>
      obtain ⟨entries, hnode⟩ := hasDirectory_iff.1 there
      rw [followParts_cons_of_name notDot notUp short hnode]
      exact ih
  | link notDot notUp short there _ ih =>
      rw [followParts_cons_of_name notDot notUp short (node?_of_kind?_link there)]
      exact ih

/-- A name after them leads to the file of that name. -/
theorem Leads.followParts_file (h : v.Leads links directory parts place) (hname : Path.IsName name)
    {content : Bytes} (hfile : v.node? (place ++ [name]) = some (.file content)) :
    v.followParts false links directory (parts ++ [name]) = .ok (.found (place ++ [name])) := by
  induction h with
  | done =>
      rw [List.nil_append,
        followParts_cons_of_name hname.notDot hname.notUp hname.short hfile]
      exact if_pos rfl
  | dot isDot _ ih => rw [List.cons_append, followParts_cons_of_dot isDot, ih hfile]
  | up _ ih => rw [List.cons_append, followParts_cons_up, ih hfile]
  | enter notDot notUp short there _ ih =>
      obtain ⟨entries, hnode⟩ := hasDirectory_iff.1 there
      rw [List.cons_append, followParts_cons_of_name notDot notUp short hnode]
      exact ih hfile
  | link notDot notUp short there _ ih =>
      rw [List.cons_append,
        followParts_cons_of_name notDot notUp short (node?_of_kind?_link there)]
      simp only [← List.append_assoc]
      exact ih hfile

/-- Where following parts ends at a directory, they lead there. -/
theorem leads_of_followParts (h : v.followParts false links directory parts = .ok (.found place))
    (hplace : v.hasDirectory place) : v.Leads links directory parts place := by
  revert h
  fun_induction Volume.followParts v false links directory parts with
  | case1 =>
      intro h
      cases h
      exact .done
  | case2 _ _ _ _ isDot ih => exact fun h => .dot isDot (ih h)
  | case3 _ _ _ _ ih => exact fun h => .up (ih h)
  | case8 _ _ _ _ notDot notUp _ short _ hnode ih =>
      intro h
      have there : v.kind? (_ ++ [_]) = some (.directory _) := congrArg (Option.map Node.kind) hnode
      exact .enter (Bool.eq_false_iff.2 notDot) notUp (Nat.le_of_not_lt short)
        (hasDirectory_of_kind? there) (ih h)
  | case9 _ _ _ _ _ _ _ hnode _ =>
      -- a file is no directory
      intro h
      cases h
      obtain ⟨entries, hentries⟩ := hasDirectory_iff.1 hplace
      rw [hnode] at hentries
      cases hentries
  | case12 _ _ _ notDot notUp _ short _ hnode _ ih =>
      intro h
      have there : v.kind? (_ ++ [_]) = some (.link _) := congrArg (Option.map Node.kind) hnode
      refine .link (Bool.eq_false_iff.2 notDot) notUp (Nat.le_of_not_lt short) there ?_
      simpa only [dite_eq_ite] using ih (by simpa only [dite_eq_ite] using h)
  | case4 | case5 | case6 | case7 | case10 | case11 => exact nofun

/-! ## What does not matter -/

theorem Leads.alike (h : v.Leads links directory parts place) (halike : v.Alike w) :
    w.Leads links directory parts place := by
  induction h with
  | done => exact .done
  | dot isDot _ ih => exact .dot isDot ih
  | up _ ih => exact .up ih
  | enter notDot notUp short there _ ih =>
      exact .enter notDot notUp short (halike.hasDirectory there) ih
  | link notDot notUp short there _ ih =>
      exact .link notDot notUp short ((halike _).trans there) ih

/-- Parts that stand for the directory they are in may come first. -/
theorem Leads.dots_append {dots : List String} (h : v.Leads links directory parts place)
    (hdots : ∀ part ∈ dots, ¬ (!Path.isDot part) = true) :
    v.Leads links directory (dots ++ parts) place := by
  induction dots with
  | nil => exact h
  | cons part dots ih =>
      obtain ⟨hpart, hrest⟩ := List.forall_mem_cons.1 hdots
      exact .dot (by simpa using hpart) (ih hrest)

/-- Where parts lead depends on those that do not stand for the directory they are in. -/
theorem Leads.of_steps (h : v.Leads links directory parts place)
    (hsteps : (parts'.filter fun part => !Path.isDot part) =
      parts.filter fun part => !Path.isDot part) :
    v.Leads links directory parts' place := by
  -- at each step, `parts'` has the same part behind some that stand for the directory itself
  induction h generalizing parts' with
  | done =>
      have hdots := List.filter_eq_nil_iff.1 hsteps
      rw [← List.append_nil parts']
      exact Leads.done.dots_append hdots
  | dot isDot _ ih =>
      refine ih (hsteps.trans ?_)
      rw [List.filter_cons, isDot]
      rfl
  | up _ ih =>
      obtain ⟨dots, rest, rfl, hdots, -, hrest⟩ := List.filter_eq_cons_iff.1 hsteps
      exact (Leads.up (ih hrest)).dots_append hdots
  | enter notDot notUp short there _ ih =>
      rw [List.filter_cons, notDot] at hsteps
      obtain ⟨dots, rest, rfl, hdots, -, hrest⟩ := List.filter_eq_cons_iff.1 hsteps
      exact (Leads.enter notDot notUp short there (ih hrest)).dots_append hdots
  | link notDot notUp short there _ ih =>
      rw [List.filter_cons, notDot] at hsteps
      obtain ⟨dots, rest, rfl, hdots, -, hrest⟩ := List.filter_eq_cons_iff.1 hsteps
      refine (Leads.link notDot notUp short there (ih ?_)).dots_append hdots
      rw [List.filter_append, List.filter_append, hrest]

/-- The name of a directory leads on to it. -/
theorem Leads.append (h : v.Leads links directory parts place) (hname : Path.IsName name)
    (there : v.hasDirectory (place ++ [name])) :
    v.Leads links directory (parts ++ [name]) (place ++ [name]) := by
  induction h with
  | done => exact .enter hname.notDot hname.notUp hname.short there .done
  | dot isDot _ ih => exact .dot isDot (ih there)
  | up _ ih => exact .up (ih there)
  | enter notDot notUp short above _ ih => exact .enter notDot notUp short above (ih there)
  | link notDot notUp short above _ ih =>
      rw [List.cons_append]
      refine .link notDot notUp short above ?_
      rw [← List.append_assoc]
      exact ih there

/-! ## Names of directories and files -/

/-- The path name, seen from the directory at `base`, leads to the directory at `place`. -/
structure Names (v : Volume) (base : Place) (path : String) (place : Place) : Prop where
  ne_empty : path ≠ ""
  leads : v.Leads linkLimit (start base path) (Path.parts path) place

theorem names_of_find (h : v.find base path = .ok place) (hplace : v.hasDirectory place) :
    v.Names base path place := by
  unfold find follow at h
  split at h
  · next found hfollow =>
      cases h
      split at hfollow
      · cases hfollow
      · next hfault =>
          refine ⟨?_, leads_of_followParts hfollow hplace⟩
          rintro rfl
          cases hfault
  · cases h
  · cases h

namespace Names

theorem alike (h : v.Names base path place) (halike : v.Alike w) : w.Names base path place :=
  ⟨h.ne_empty, h.leads.alike halike⟩

theorem start_join (h : v.Names base path place) (hname : Path.IsName name) :
    start base (Path.join path name) = start base path := by
  rw [start, start, Path.isAbsolute_join h.ne_empty hname]

/-- Before the name in a joined path name stand parts that lead to the directory. -/
theorem parts_join (h : v.Names base path place) (hname : Path.IsName name) :
    ∃ above, Path.parts (Path.join path name) = above ++ [name] ∧
      v.Leads linkLimit (start base path) above place := by
  obtain ⟨above, hparts, habove⟩ := Path.parts_join h.ne_empty hname
  exact ⟨above, hparts, h.leads.of_steps habove⟩

theorem join (h : v.Names base path place) (hname : Path.IsName name)
    (there : v.hasDirectory (place ++ [name])) :
    v.Names base (Path.join path name) (place ++ [name]) := by
  obtain ⟨above, hparts, habove⟩ := h.parts_join hname
  refine ⟨Path.join_ne_empty h.ne_empty hname, ?_⟩
  rw [h.start_join hname, hparts]
  exact habove.append hname there

/-- A file is read by the name of its directory and its own. -/
theorem read (h : v.Names base path place) (hname : Path.IsName name) {content : Bytes}
    (hfile : v.content? (place ++ [name]) = some content)
    (hfault : pathFault? (Path.join path name) = none) :
    v.read base (Path.join path name) = .ok content := by
  have hnode := node?_of_content? hfile
  obtain ⟨above, hparts, habove⟩ := h.parts_join hname
  have hfollow : v.follow base (Path.join path name) = .ok (.found (place ++ [name])) := by
    rw [follow, hfault, h.start_join hname, hparts]
    exact habove.followParts_file hname hnode
  rw [Volume.read, find, hfollow]
  simp only [hnode]

/-- A new file is put at the place that the name of a directory and a name in it say. -/
theorem exchange (h : v.Names base path place) (hname : Path.IsName name) (content : Bytes) :
    v.exchange base (Path.join path name) content =
      .ok (v.put (place ++ [name]) (.file content)) := by
  have hsteps : ((Path.parts (Path.join path name)).filter fun part => !Path.isDot part).dropLast =
      Path.steps path := by
    have hjoin := Path.steps_join h.ne_empty hname
    rw [Path.steps] at hjoin
    rw [hjoin, List.dropLast_concat]
  have hleads : v.Leads linkLimit (start base path) (Path.steps path) place := by
    refine h.leads.of_steps ?_
    rw [Path.steps, List.filter_filter]
    simp only [Bool.and_self]
  rw [Volume.exchange, Path.fileName?_join h.ne_empty hname]
  simp only [hsteps, h.start_join hname, hleads.followParts]

end Names

end Volume

end LateBinding
