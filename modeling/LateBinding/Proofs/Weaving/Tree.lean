import LateBinding.Proofs.Codec.RoundTrip
import LateBinding.Proofs.Files.Walking
import LateBinding.Weaving.Tree

set_option autoImplicit false

/-! # Weaving a directory tree in both modes

What becomes of a module file depends on its path name and its content (`Codec.treat`), and
not on the files before it: a pass changes the contents of module files only, and each of these when
it comes to it. So a pass over a plain tree is known from the list of its module files. One that
goes on after failures treats them all; one that ends at the first failure treats those up to there,
and this is the only difference (`Volume.weaveTree_modes`).

Both modes are one fold over the list, with the invariant `Pass.Has`: after some files, the volume
and the report are those of the files so far.
-/

namespace LateBinding

open Codec (Bytes)

/-! ## Lists up to an item -/

section

variable {α β : Type} {p : α → Bool}

/-- The items up to the first that has the property, this one included; all if there is none. -/
def upTo (p : α → Bool) (items : List α) : List α := items.take (items.findIdx p + 1)

theorem upTo_nil : upTo p [] = [] := rfl

theorem upTo_cons (p : α → Bool) (item : α) (items : List α) :
    upTo p (item :: items) = item :: if p item then [] else upTo p items := by
  rw [upTo, List.take_succ_cons, List.findIdx_cons]
  cases p item with
  | true => rfl
  | false => rfl

theorem upTo_eq_self {items : List α} (h : ∀ item ∈ items, p item = false) :
    upTo p items = items := by
  induction items with
  | nil => rfl
  | cons item items ih =>
      obtain ⟨hitem, hitems⟩ := List.forall_mem_cons.1 h
      rw [upTo_cons, hitem, ih hitems]
      rfl

theorem upTo_map (p : β → Bool) (f : α → β) (items : List α) :
    upTo p (items.map f) = (upTo (fun item => p (f item)) items).map f := by
  induction items with
  | nil => rfl
  | cons item items ih =>
      rw [List.map_cons, upTo_cons, upTo_cons, List.map_cons, ih]
      cases p (f item) with
      | true => rfl
      | false => rfl

theorem take_length_upTo (p : α → Bool) (items : List α) :
    items.take (upTo p items).length = upTo p items := by
  rw [upTo, List.length_take, ← List.take_eq_take_min]

end

/-! ## Reports -/

namespace Report

theorem failureCount_eq (report : Report) :
    report.failureCount = report.files.countP (·.error?.isSome) := by
  rw [failureCount, failures, List.length_filterMap_eq_countP]
  simp only [Option.isSome_map]

/-- Every file of a report was woven, left unchanged, or failed. -/
theorem counts (report : Report) :
    report.wovenCount + report.unchangedCount + report.failureCount = report.files.length := by
  rw [failureCount_eq, wovenCount, woven, ← List.countP_eq_length_filter, unchangedCount]
  induction report.files with
  | nil => rfl
  | cons file files ih =>
      have hone : (if file.isWoven then 1 else 0) + (if file.isUnchanged then 1 else 0) +
          (if file.error?.isSome then 1 else 0) = 1 := by
        unfold FileReport.isWoven FileReport.isUnchanged FileReport.error?
        cases file.outcome <;> rfl
      rw [List.countP_cons, List.countP_cons, List.countP_cons, List.length_cons]
      omega

theorem isSuccess_iff (report : Report) :
    report.isSuccess ↔ report.aborted = false ∧ ∀ file ∈ report.files, file.error? = none := by
  unfold isSuccess failureCount failures
  rw [Bool.and_eq_true, Bool.not_eq_true', beq_iff_eq, List.length_eq_zero_iff,
    List.filterMap_eq_nil_iff]
  simp only [Option.map_eq_none_iff]

end Report

/-! ## One file -/

/-- What becomes of a module file with this path name and content, and what it holds afterwards. -/
def Codec.treat (marker path : String) (content : Bytes) : FileOutcome × Bytes :=
  match Codec.weave marker content with
  | .error e => (.failed (Error.inContext .weaving path (Error.format e).message), content)
  | .ok (woven, summary) =>
    if summary.isModified then (.woven summary, woven) else (.unchanged summary, content)

namespace Volume

variable {v w w' : Volume} {base place rest : Place} {root : String} {settings : WeaverSettings}
  {marker : String} {files : List Place} {content : Bytes}

/-- A file below the root is read by its path name. -/
theorem Rooted.read (h : v.Rooted base root place) (halike : v.Alike w)
    (hfile : w.content? (place ++ rest) = some content) :
    w.read base (Path.below root rest) = .ok content := by
  have hkind : v.kind? (place ++ rest) = some .file := by
    rw [← halike]
    exact kind?_eq_file.2 ⟨content, hfile⟩
  have hfault := h.plain.short rest .file hkind
  obtain ⟨above, directory, name, hnames, hname, hpath, hplace⟩ :=
    h.plain.exists_names h.named h.directory hkind
  rw [hpath] at hfault ⊢
  rw [hplace] at hfile
  exact (hnames.alike halike).read hname hfile hfault

/-- A new file is put in the place of a file below the root by its path name. -/
theorem Rooted.exchange (h : v.Rooted base root place) (halike : v.Alike w)
    (hfile : v.kind? (place ++ rest) = some .file) (content : Bytes) :
    w.exchange base (Path.below root rest) content =
      .ok (w.put (place ++ rest) (.file content)) := by
  obtain ⟨above, directory, name, hnames, hname, hpath, hplace⟩ :=
    h.plain.exists_names h.named h.directory hfile
  rw [hpath, hplace]
  exact (hnames.alike halike).exchange hname content

/-- A visit of a module file treats it, and changes nothing else. -/
theorem Rooted.weaveVisit (h : v.Rooted base root place) (halike : v.Alike w)
    (hfile : w.content? (place ++ rest) = some content)
    (hmodule : settings.isModuleFile (Path.below root rest)) :
    ∃ outcome out w', Codec.treat settings.marker (Path.below root rest) content = (outcome, out) ∧
      w.weaveVisit base settings (.file (Path.below root rest)) =
        some (⟨Path.below root rest, outcome⟩, w') ∧
      w.Overwrites (place ++ rest) out w' := by
  have hread := h.read halike hfile
  have hkind : w.kind? (place ++ rest) = some .file := kind?_eq_file.2 ⟨content, hfile⟩
  have hexchange := h.exchange halike (halike (place ++ rest) ▸ hkind)
  unfold Volume.weaveVisit weaveFile Codec.treat
  simp only [hmodule, if_true, hread]
  -- only a module in which something was replaced is written back
  cases Codec.weave settings.marker content with
  | error e => exact ⟨_, _, w, rfl, rfl, .refl hfile⟩
  | ok result =>
      obtain ⟨woven, summary⟩ := result
      by_cases hmodified : summary.isModified = true
      · simp only [hmodified, if_true, hexchange woven]
        exact ⟨_, _, _, rfl, rfl, overwrites_put hkind woven⟩
      · simp only [hmodified]
        exact ⟨_, _, w, rfl, rfl, .refl hfile⟩

/-! ## Some files -/

/-- These files are treated, and nothing else has changed. -/
structure WovenAt (v : Volume) (marker root : String) (place : Place) (files : List Place)
    (after : Volume) : Prop where
  alike : v.Alike after
  treated : ∀ rest ∈ files, ∀ content, v.content? (place ++ rest) = some content →
    after.content? (place ++ rest) = some (Codec.treat marker (Path.below root rest) content).2
  kept : ∀ other, (∀ rest ∈ files, other ≠ place ++ rest) → after.content? other = v.content? other

/-- What is reported of the file at a place below the root. -/
def fileReport (v : Volume) (marker root : String) (place rest : Place) : FileReport :=
  ⟨Path.below root rest,
    (Codec.treat marker (Path.below root rest) ((v.content? (place ++ rest)).getD [])).1⟩

theorem wovenAt_nil : v.WovenAt marker root place [] v :=
  ⟨.refl v, fun _ hrest => absurd hrest List.not_mem_nil, fun _ _ => rfl⟩

/-- One file more is treated. -/
theorem WovenAt.concat (h : v.WovenAt marker root place files w) (hrest : rest ∉ files)
    (hfile : v.content? (place ++ rest) = some content) {outcome : FileOutcome} {out : Bytes}
    (htreat : Codec.treat marker (Path.below root rest) content = (outcome, out))
    (hover : w.Overwrites (place ++ rest) out w') :
    v.WovenAt marker root place (files ++ [rest]) w' := by
  refine ⟨h.alike.trans hover.alike, ?_, ?_⟩
  · intro other hother found hfound
    rw [hover.content]
    rcases List.mem_append.1 hother with hother | hother
    · have hne : place ++ other ≠ place ++ rest :=
        fun heq => hrest (List.append_cancel_left heq ▸ hother)
      rw [if_neg hne]
      exact h.treated other hother found hfound
    · obtain rfl := List.mem_singleton.1 hother
      rw [hfile] at hfound
      cases hfound
      rw [htreat]
      exact if_pos rfl
  · intro other hother
    obtain ⟨hbefore, hlast⟩ := List.forall_mem_append.1 hother
    rw [hover.content, if_neg (hlast rest (List.mem_singleton_self rest))]
    exact h.kept other hbefore

/-- Whether weaving the file at a place below the root fails. -/
def fails (v : Volume) (marker root : String) (place rest : Place) : Bool :=
  (v.fileReport marker root place rest).error?.isSome

end Volume

/-! ## Passes -/

namespace Pass

variable {v : Volume} {base place rest : Place} {root : String} {settings : WeaverSettings}
  {files before : List Place} {pass : Pass}

/-- A pass has come across these files and no others. -/
structure Has (pass : Pass) (v : Volume) (marker root : String) (place : Place)
    (files : List Place) : Prop where
  volume : v.WovenAt marker root place files pass.volume
  reported : pass.files.toList = files.map (v.fileReport marker root place)

theorem visit_of_not_isModuleFile (h : ¬ settings.isModuleFile (Path.below root rest)) :
    Pass.visit base settings (.file (Path.below root rest)) pass = pass := by
  unfold Pass.visit Volume.weaveVisit
  simp only [h]
  rfl

/-- A visit of a module file adds it to those that a pass has come across. -/
theorem Has.visit (h : pass.Has v settings.marker root place files)
    (hroot : v.Rooted base root place) (hfile : v.kind? (place ++ rest) = some .file)
    (hmodule : settings.isModuleFile (Path.below root rest)) (hrest : rest ∉ files) :
    ∃ next, Pass.visit base settings (.file (Path.below root rest)) pass = next ∧
      next.Has v settings.marker root place (files ++ [rest]) ∧
      next.aborted = (settings.failFast && v.fails settings.marker root place rest) := by
  obtain ⟨content, hcontent⟩ := Volume.kind?_eq_file.1 hfile
  have hnow : pass.volume.content? (place ++ rest) = some content := by
    rw [h.volume.kept, hcontent]
    intro other hother heq
    exact hrest (List.append_cancel_left heq ▸ hother)
  obtain ⟨outcome, out, after, htreat, hvisit, hover⟩ :=
    hroot.weaveVisit h.volume.alike hnow hmodule
  have hreport : v.fileReport settings.marker root place rest =
      ⟨Path.below root rest, outcome⟩ := by
    rw [Volume.fileReport, hcontent, Option.getD_some, htreat]
  refine ⟨_, rfl, ?_, ?_⟩
  · rw [Pass.visit, hvisit]
    refine ⟨h.volume.concat hrest hcontent htreat hover, ?_⟩
    simp only [Array.toList_push, h.reported, List.map_append, List.map_singleton, hreport]
  · rw [Pass.visit, hvisit, Volume.fails, hreport]

/-- A pass changes nothing but the contents of files. -/
theorem keeps_walk (hroot : v.Rooted base root place) :
    (Pass.walk base settings).Keeps v root place fun pass => v.Alike pass.volume := by
  refine ⟨fun _ halike => halike, ?_⟩
  intro rest pass hfile halike
  show v.Alike (Pass.visit base settings (.file (Path.below root rest)) pass).volume
  by_cases hmodule : settings.isModuleFile (Path.below root rest) = true
  · obtain ⟨content, hcontent⟩ := Volume.kind?_eq_file.1 ((halike _).trans hfile)
    obtain ⟨_, _, after, -, hvisit, hover⟩ := hroot.weaveVisit halike hcontent hmodule
    rw [Pass.visit, hvisit]
    exact halike.trans hover.alike
  · rw [visit_of_not_isModuleFile hmodule]
    exact halike

/-- Files that are no module files do not count. -/
theorem foldl_comeTo_filter (files : List Place) (pass : Pass) :
    files.foldl ((Pass.walk base settings).comeTo root) pass =
      (files.filter fun rest => settings.isModuleFile (Path.below root rest)).foldl
        ((Pass.walk base settings).comeTo root) pass := by
  rw [List.foldl_filter]
  congr 1
  funext pass rest
  by_cases hmodule : settings.isModuleFile (Path.below root rest) = true
  · rw [if_pos hmodule]
  · rw [if_neg hmodule, Walk.comeTo]
    split
    · rfl
    · exact visit_of_not_isModuleFile hmodule

/-- **A pass comes across its files up to the first failure that ends it**, and is aborted if there
is one. -/
theorem Has.foldl_comeTo (h : pass.Has v settings.marker root place before)
    (hroot : v.Rooted base root place) (haborted : pass.aborted = false)
    (hfiles : ∀ rest ∈ files, v.kind? (place ++ rest) = some .file ∧
      settings.isModuleFile (Path.below root rest)) (hnodup : (before ++ files).Nodup)
    {ends : Place → Bool}
    (hends : ends = fun rest => settings.failFast && v.fails settings.marker root place rest) :
    ∃ after, files.foldl ((Pass.walk base settings).comeTo root) pass = after ∧
      after.Has v settings.marker root place (before ++ upTo ends files) ∧
      after.aborted = files.any ends := by
  -- a file that does not end the pass goes over to those before
  induction files generalizing before pass with
  | nil =>
      rw [upTo_nil, List.append_nil]
      exact ⟨pass, rfl, h, haborted⟩
  | cons rest files ih =>
      obtain ⟨⟨hfile, hmodule⟩, hfiles⟩ := List.forall_mem_cons.1 hfiles
      rw [List.append_cons] at hnodup
      have hrest : rest ∉ before := by
        have hbefore := (List.nodup_append.1 hnodup).1
        exact fun hmem => (List.nodup_append.1 hbefore).2.2 rest hmem rest (by simp) rfl
      have hcome : (Pass.walk base settings).comeTo root pass rest =
          Pass.visit base settings (.file (Path.below root rest)) pass := by
        have hover : ¬ (Pass.walk base settings).isOver pass := by
          show ¬ pass.aborted = true
          rw [haborted]
          exact Bool.false_ne_true
        exact if_neg hover
      obtain ⟨next, hvisit, hhas, hended⟩ := h.visit hroot hfile hmodule hrest
      rw [← congrFun hends rest] at hended
      rw [List.foldl_cons, hcome, hvisit, upTo_cons, List.any_cons, ← hended]
      cases hover : next.aborted with
      | true =>
          rw [Walk.foldl_comeTo_of_isOver hover]
          exact ⟨next, rfl, hhas, hover⟩
      | false =>
          obtain ⟨after, hafter, hhas, hany⟩ := ih hhas hover hfiles hnodup
          rw [List.append_assoc] at hhas
          exact ⟨after, hafter, hhas, hany⟩

end Pass

namespace Volume

variable {v : Volume} {base place : Place} {root : String}

/-! ## Both modes -/

/-- The module files below the root, each once, in the order of a walk. -/
structure ListsModules (v : Volume) (settings : WeaverSettings) (root : String) (place : Place)
    (files : List Place) : Prop where
  mem : ∀ rest, rest ∈ files ↔
    v.kind? (place ++ rest) = some .file ∧ settings.isModuleFile (Path.below root rest)
  ordered : files.Pairwise Place.Precedes

theorem ListsModules.nodup {settings : WeaverSettings} {files : List Place}
    (h : v.ListsModules settings root place files) : files.Nodup := by
  refine h.ordered.imp ?_
  rintro a _ hlt rfl
  exact Place.precedes_irrefl a hlt

/-- A pass treats its files up to the first failure that ends it, and reports these. -/
theorem Rooted.exists_weaveTree (h : v.Rooted base root place) (settings : WeaverSettings) :
    ∃ files, v.ListsModules settings root place files ∧ ∀ failFast ends,
      (ends = fun rest => failFast && v.fails settings.marker root place rest) →
      ∃ after, v.weaveTree base { settings with failFast } root =
          (.ok { root, files := (upTo ends files).map (v.fileReport settings.marker root place),
                 aborted := files.any ends }, after) ∧
        v.WovenAt settings.marker root place (upTo ends files) after := by
  obtain ⟨all, hall, hrun⟩ := Walk.exists_run h
  let files := all.filter fun rest => settings.isModuleFile (Path.below root rest)
  have hfiles : v.ListsModules settings root place files := by
    refine ⟨?_, hall.ordered.filter _⟩
    intro rest
    rw [List.mem_filter, hall.mem]
  refine ⟨files, hfiles, ?_⟩
  intro failFast ends hends
  let mode : WeaverSettings := { settings with failFast }
  -- the list of files is chosen before the mode, so both modes go through the same one
  have hwalk : (Pass.walk base mode).run root { volume := v } =
      files.foldl ((Pass.walk base mode).comeTo root) { volume := v } :=
    (hrun (Pass.walk base mode) (fun pass => v.Alike pass.volume) { volume := v } rfl rfl
      (Pass.keeps_walk h) (.refl v)).trans (Pass.foldl_comeTo_filter all _)
  have hstart : Pass.Has { volume := v } v mode.marker root place [] := ⟨wovenAt_nil, rfl⟩
  obtain ⟨after, hafter, hhas, haborted⟩ :=
    hstart.foldl_comeTo h rfl (fun rest => (hfiles.mem rest).1) hfiles.nodup hends
  have hdirectory : v.isDirectory base root := by
    unfold isDirectory nodeAt?
    rw [h.find]
    exact h.directory
  refine ⟨after.volume, ?_, hhas.volume⟩
  unfold weaveTree
  rw [if_pos hdirectory, hwalk, hafter]
  show (Except.ok (Report.mk root after.files.toList after.aborted), after.volume) = _
  rw [hhas.reported, haborted]
  rfl

/-- What a pass over these files comes to when failures do not end it. -/
structure GoesOn (v : Volume) (marker root : String) (place : Place) (files : List Place)
    (full : Report) (after : Volume) : Prop where
  reported : full.files = files.map (v.fileReport marker root place)
  aborted : full.aborted = false
  success : full.isSuccess ↔ ∀ file ∈ full.files, file.error? = none
  volume : v.WovenAt marker root place files after
  counts : full.wovenCount + full.unchangedCount + full.failureCount = full.files.length

/-- What a pass over these files comes to when the first failure ends it, in terms of one that goes
on after failures. -/
structure EndsEarly (v : Volume) (marker root : String) (place : Place) (files : List Place)
    (full : Report) (after : Volume) (cut : Report) (left : Volume) : Prop where
  reported : cut.files = upTo (fun file => file.error?.isSome) full.files
  aborted : cut.aborted ↔ ∃ file ∈ full.files, file.error?.isSome
  volume : v.WovenAt marker root place (files.take cut.files.length) left
  same : ∀ rest ∈ files.take cut.files.length,
    left.content? (place ++ rest) = after.content? (place ++ rest)
  later : ∀ rest ∈ files.drop cut.files.length,
    left.content? (place ++ rest) = v.content? (place ++ rest)
  counts : cut.wovenCount + cut.unchangedCount + cut.failureCount = cut.files.length

/-- Two volumes in which a file is treated have the same content there. -/
theorem WovenAt.content?_eq {marker : String} {files files' : List Place} {w w' : Volume}
    {rest : Place} (h : v.WovenAt marker root place files w)
    (h' : v.WovenAt marker root place files' w') (hrest : rest ∈ files) (hrest' : rest ∈ files')
    (hfile : v.kind? (place ++ rest) = some .file) :
    w.content? (place ++ rest) = w'.content? (place ++ rest) := by
  obtain ⟨content, hcontent⟩ := kind?_eq_file.1 hfile
  rw [h.treated rest hrest content hcontent, h'.treated rest hrest' content hcontent]

/-- **Weaving a directory tree in both modes.** Let `root` lead to a directory with a plain tree
below it. A pass that goes on after failures reports each module file once and nothing else, in the
order of the walk. A file is replaced by its woven module if there was something to replace, and
keeps its content if there was not or if it is no module; everything else in the volume stays. The
pass is not aborted, and it succeeds if no file fails. A pass that ends at the first failure reports
the same up to there. It leaves the files that it reports as the other pass does, and all later ones
as they were, and it is aborted if there is a failure at all. -/
theorem weaveTree_modes (h : v.Rooted base root place) (settings : WeaverSettings) :
    ∃ files full after cut left, v.ListsModules settings root place files ∧
      v.weaveTree base { settings with failFast := false } root = (.ok full, after) ∧
      v.weaveTree base { settings with failFast := true } root = (.ok cut, left) ∧
      v.GoesOn settings.marker root place files full after ∧
      v.EndsEarly settings.marker root place files full after cut left := by
  obtain ⟨files, hfiles, hmodes⟩ := h.exists_weaveTree settings
  let report := v.fileReport settings.marker root place
  let fails := v.fails settings.marker root place
  obtain ⟨after, hfull, hafter⟩ := hmodes false (fun _ => false) rfl
  obtain ⟨left, hcut, hleft⟩ := hmodes true fails rfl
  have hall : upTo (fun _ => false) files = files := upTo_eq_self fun _ _ => rfl
  have hnone : (files.any fun _ => false) = false := by simp
  have htake : files.take ((upTo fails files).map report).length = upTo fails files := by
    rw [List.length_map, take_length_upTo]
  rw [hall, hnone] at hfull
  rw [hall] at hafter
  refine ⟨files, _, after, _, left, hfiles, hfull, hcut, ?_, ?_⟩
  · refine ⟨rfl, rfl, ?_, hafter, Report.counts _⟩
    rw [Report.isSuccess_iff]
    exact and_iff_right rfl
  · refine ⟨(upTo_map (fun file => file.error?.isSome) report files).symm, ?_, ?_, ?_, ?_,
      Report.counts _⟩
    · show files.any fails = true ↔ ∃ file ∈ files.map report, file.error?.isSome
      rw [← List.any_eq_true, List.any_map]
      exact Iff.rfl
    · rw [htake]
      exact hleft
    · rw [htake]
      intro rest hrest
      have hmem : rest ∈ files := List.mem_of_mem_take hrest
      exact hleft.content?_eq hafter hrest hmem ((hfiles.mem rest).1 hmem).1
    · -- a later file is none of those treated, as the list has each file once
      intro rest hrest
      refine hleft.kept _ fun other hother heq => ?_
      obtain rfl := List.append_cancel_left heq
      rw [← htake] at hother
      exact List.disjoint_take_drop hfiles.nodup (Nat.le_refl _) hother hrest

/-- A directory with a module, an empty file that has the name of one, and another file. -/
def nursery : Volume where
  root := [("tree", .directory [("b.rwm", .file Codec.sample.bytes), ("a.rwm", .file []),
    ("c.txt", .file [])])]

theorem weaveTree_modes_nursery :
    ∃ full after cut left,
      nursery.weaveTree [] { marker := "A" } "tree" = (.ok full, after) ∧
      nursery.weaveTree [] { marker := "A", failFast := true } "tree" = (.ok cut, left) ∧
      ¬ full.isSuccess ∧ cut.aborted ∧ after.content? ["tree", "a.rwm"] = some [] ∧
      after.content? ["tree", "b.rwm"] ≠ nursery.content? ["tree", "b.rwm"] := by
  have hleads : nursery.Leads linkLimit [] ["tree"] ["tree"] :=
    .enter (by decide) (by decide) (by decide) rfl .done
  have hfind : nursery.find [] "tree" = .ok ["tree"] := by
    have hparts : Path.parts "tree" = ["tree"] := by decide +kernel
    have hfault : pathFault? "tree" = none := by decide +kernel
    have hfollow : nursery.follow [] "tree" = .ok (.found ["tree"]) := by
      rw [follow, hfault, hparts]
      exact hleads.followParts
    rw [find, hfollow]
  have hplain : nursery.Plain "tree" ["tree"] := by
    refine plain_of_files rfl (by decide) ?_ (by decide +kernel)
    simp only [List.forall_mem_cons]
    exact ⟨⟨rfl, ⟨by decide, by decide, by decide, by decide⟩, by decide +kernel⟩,
      ⟨rfl, ⟨by decide, by decide, by decide, by decide⟩, by decide +kernel⟩,
      ⟨rfl, ⟨by decide, by decide, by decide, by decide⟩, by decide +kernel⟩,
      fun _ hmem => (List.not_mem_nil hmem).elim⟩
  obtain ⟨files, full, after, cut, left, hfiles, hfull, hcut, hgoes, hends⟩ :=
    weaveTree_modes ⟨hfind, rfl, hplain⟩ { marker := "A" }
  have hfirst : ["a.rwm"] ∈ files := (hfiles.mem _).2 ⟨rfl, by decide +kernel⟩
  have hsecond : ["b.rwm"] ∈ files := (hfiles.mem _).2 ⟨rfl, by decide +kernel⟩
  have hfails : (nursery.fileReport "A" "tree" ["tree"] ["a.rwm"]).error?.isSome := by
    decide +kernel
  have hreport : nursery.fileReport "A" "tree" ["tree"] ["a.rwm"] ∈ full.files := by
    rw [hgoes.reported]
    exact List.mem_map_of_mem hfirst
  refine ⟨full, after, cut, left, hfull, hcut, ?_, ?_, ?_, ?_⟩
  · rw [hgoes.success]
    intro hnone
    rw [hnone _ hreport] at hfails
    cases hfails
  · exact hends.aborted.2 ⟨_, hreport, hfails⟩
  · have htreated := hgoes.volume.treated _ hfirst [] rfl
    rw [show Codec.treat "A" (Path.below "tree" ["a.rwm"]) [] = (_, []) from rfl] at htreated
    exact htreated
  · have htreated := hgoes.volume.treated _ hsecond Codec.sample.bytes rfl
    intro heq
    have hwoven : (Codec.treat "A" (Path.below "tree" ["b.rwm"]) Codec.sample.bytes).2 ≠
        Codec.sample.bytes := by decide +kernel
    exact hwoven (Option.some.inj (htreated.symm.trans heq))

end Volume

end LateBinding
