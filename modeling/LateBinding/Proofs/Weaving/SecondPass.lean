import LateBinding.Proofs.Weaving.Idempotence
import LateBinding.Proofs.Weaving.Tree
import Mathlib.Data.List.Lex
import Mathlib.Data.List.Sort

set_option autoImplicit false

/-! # A second pass over a directory tree

A second pass finds the files as the first one left them: woven files, which have nothing more to
replace, and files that were not touched, which give what they gave before (`Codec.treat_treat`). It
goes through the same list of files, since the first pass has changed contents only and a list in
the order of a walk is determined by its members (`Volume.ListsModules.unique`). So its report is
the first one with every file that was woven settled, and the volume is not touched at all
(`Volume.weaveTree_twice`).
-/

namespace LateBinding

open Codec (Bytes)

/-! ## Settled reports -/

/-- What becomes of a module file in a second pass. -/
def FileOutcome.settled : FileOutcome → FileOutcome
  | .woven summary => .unchanged { summary with sites := 0 }
  | .unchanged summary => .unchanged summary
  | .failed error => .failed error

/-- What a second pass reports of a file. -/
def FileReport.settled (file : FileReport) : FileReport :=
  { file with outcome := file.outcome.settled }

/-- What a second pass reports. -/
def Report.settled (report : Report) : Report :=
  { report with files := report.files.map FileReport.settled }

theorem FileOutcome.settled_ne_woven (outcome : FileOutcome) (summary : WeaveSummary) :
    outcome.settled ≠ .woven summary := by
  cases outcome <;> exact nofun

/-- A file that is settled fails if it did before, with the same error. -/
theorem FileReport.error?_settled (file : FileReport) : file.settled.error? = file.error? := by
  unfold error? settled FileOutcome.settled
  cases file.outcome <;> rfl

theorem FileReport.sites_settled (file : FileReport) : file.settled.sites = 0 := by
  unfold sites settled FileOutcome.settled
  cases file.outcome <;> rfl

namespace Report

theorem isSuccess_settled (report : Report) : report.settled.isSuccess = report.isSuccess := by
  have hcount : report.settled.failureCount = report.failureCount := by
    rw [failureCount_eq, failureCount_eq, settled, List.countP_map]
    simp only [Function.comp_def, FileReport.error?_settled]
  rw [isSuccess, isSuccess, hcount]
  rfl

theorem sites_settled (report : Report) : report.settled.sites = 0 := by
  rw [sites, settled, List.map_map]
  induction report.files with
  | nil => rfl
  | cons file files ih =>
      rw [List.map_cons, List.foldr_cons, ih, Function.comp_apply, FileReport.sites_settled]

end Report

/-! ## One file -/

namespace Codec

/-- What was woven is woven to itself. -/
theorem weave_weave {kind : String} {bytes out : Bytes} {summary : WeaveSummary}
    (h : Codec.weave kind bytes = .ok (out, summary)) :
    Codec.weave kind out = .ok (out, { summary with sites := 0 }) := by
  obtain ⟨m, hdecode, -⟩ := Except.bind_eq_ok.1 h
  obtain ⟨hweave, hbytes, hout⟩ := weave_eq_of_decode hdecode kind
  rw [hbytes] at h
  cases h
  have hscan := (Module.weave_eq_ok.1 hweave).1
  obtain ⟨-, hagain, -⟩ := weave_eq_of_decode hout kind
  rwa [Module.woven_woven hscan, Module.wovenSummary_woven hscan] at hagain

/-- A file that was treated is settled, and keeps its content. -/
theorem treat_treat (marker path : String) (content : Bytes) :
    treat marker path (treat marker path content).2 =
      ((treat marker path content).1.settled, (treat marker path content).2) := by
  cases hweave : Codec.weave marker content with
  | error e =>
      -- a file that fails is left as it is, and fails again
      have htreat : treat marker path content =
          (.failed (Error.inContext .weaving path (Error.format e).message), content) := by
        rw [treat, hweave]
      rw [htreat]
      exact htreat
  | ok result =>
      obtain ⟨out, summary⟩ := result
      by_cases hmodified : summary.isModified = true
      · have htreat : treat marker path content = (.woven summary, out) := by
          simp only [treat, hweave, hmodified, if_true]
        have hagain : treat marker path out = (.unchanged { summary with sites := 0 }, out) := by
          rw [treat, weave_weave hweave]
          rfl
        rw [htreat]
        exact hagain
      · have htreat : treat marker path content = (.unchanged summary, content) := by
          simp only [treat, hweave, hmodified]
          rfl
        rw [htreat]
        exact htreat

end Codec

/-- Of two places, at most one precedes the other. -/
instance : Std.Asymm Place.Precedes :=
  have : Std.Asymm fun x y : String => Text.utf8 x < Text.utf8 y := ⟨fun _ _ => List.lt_asymm⟩
  List.Lex.asymm _

namespace Volume

variable {v w : Volume} {base place rest : Place} {path root : String}
  {settings : WeaverSettings} {files files' : List Place}

/-! ## The tree after a pass -/

/-- A tree stays plain when contents change. -/
theorem Plain.alike (h : v.Plain path place) (halike : v.Alike w) : w.Plain path place := by
  constructor
  · intro rest names hkind
    rw [halike] at hkind
    exact h.names rest names hkind
  · intro rest target
    rw [halike]
    exact h.noLink rest target
  · intro rest kind hkind
    rw [halike] at hkind
    exact h.short rest kind hkind

theorem Rooted.alike (h : v.Rooted base root place) (halike : v.Alike w) :
    w.Rooted base root place := by
  have hdirectory := halike.hasDirectory h.directory
  obtain ⟨names, hkind⟩ := kind?_of_hasDirectory h.directory
  have hfault : pathFault? root = none := h.plain.short [] _ (by rwa [List.append_nil])
  refine ⟨?_, hdirectory, h.plain.alike halike⟩
  rw [Volume.find, follow, hfault]
  simp only [(h.named.leads.alike halike).followParts]

/-- There is one list of the module files in the order of a walk. -/
theorem ListsModules.unique (h : v.ListsModules settings root place files)
    (h' : w.ListsModules settings root place files') (halike : v.Alike w) : files' = files := by
  refine List.Pairwise.eq_of_mem_iff h'.ordered h.ordered ?_
  intro rest
  rw [h'.mem, h.mem, halike]

/-! ## Files that stay -/

/-- No module file below the root would be replaced. -/
def Stays (v : Volume) (settings : WeaverSettings) (root : String) (place : Place) : Prop :=
  ∀ rest content summary, v.content? (place ++ rest) = some content →
    settings.isModuleFile (Path.below root rest) →
      (Codec.treat settings.marker (Path.below root rest) content).1 ≠ .woven summary

/-- A visit of a file that stays leaves the volume as it is. -/
theorem Rooted.volume_visit (h : v.Rooted base root place) (hstays : v.Stays settings root place)
    (hfile : v.kind? (place ++ rest) = some .file) {pass : Pass} (hpass : pass.volume = v) :
    (Pass.visit base settings (.file (Path.below root rest)) pass).volume = v := by
  by_cases hmodule : settings.isModuleFile (Path.below root rest) = true
  · obtain ⟨content, hcontent⟩ := kind?_eq_file.1 hfile
    have hread := h.read (.refl v) hcontent
    have htreat := fun summary => hstays rest content summary hcontent hmodule
    unfold Pass.visit Volume.weaveVisit weaveFile
    rw [hpass]
    simp only [hmodule, if_true, hread]
    unfold Codec.treat at htreat
    cases hweave : Codec.weave settings.marker content with
    | error e => rfl
    | ok result =>
        obtain ⟨out, summary⟩ := result
        rw [hweave] at htreat
        by_cases hmodified : summary.isModified = true
        · simp only [hmodified, if_true] at htreat
          exact absurd rfl (htreat summary)
        · simp only [hmodified]
          rfl
  · rw [Pass.visit_of_not_isModuleFile hmodule, hpass]

/-- Where all files stay, a pass leaves the volume as it is. -/
theorem Rooted.volume_weaveTree (h : v.Rooted base root place)
    (hstays : v.Stays settings root place) : (v.weaveTree base settings root).2 = v := by
  have hkeeps : (Pass.walk base settings).Keeps v root place fun pass => pass.volume = v := by
    refine ⟨?_, ?_⟩
    · rintro pass rfl
      exact .refl _
    · intro rest pass hfile hpass
      exact h.volume_visit hstays hfile hpass
  obtain ⟨files, hfiles, hrun⟩ := Walk.exists_run h
  have hwalk := hrun (Pass.walk base settings) _ { volume := v } rfl rfl hkeeps rfl
  unfold weaveTree
  split
  · show ((Pass.walk base settings).run root { volume := v }).volume = v
    rw [hwalk]
    exact hkeeps.foldl (fun rest => (hfiles.mem rest).1) rfl
  · rfl

/-! ## Both passes -/

/-- A pass that goes on after failures treats every module file and reports it. -/
theorem Rooted.exists_weaveTree_goingOn (h : v.Rooted base root place)
    (settings : WeaverSettings) :
    ∃ files after, v.ListsModules settings root place files ∧
      v.WovenAt settings.marker root place files after ∧
      v.weaveTree base { settings with failFast := false } root =
        (.ok { root, files := files.map (v.fileReport settings.marker root place) }, after) := by
  obtain ⟨files, hfiles, hmodes⟩ := h.exists_weaveTree settings
  obtain ⟨after, hweave, hafter⟩ := hmodes false (fun _ => false) rfl
  have hall : upTo (fun _ => false) files = files := upTo_eq_self fun _ _ => rfl
  have hnone : (files.any fun _ => false) = false := by simp
  rw [hall] at hafter
  rw [hall, hnone] at hweave
  exact ⟨files, after, hfiles, hafter, hweave⟩

/-- Of a file that was treated, a second pass reports that it is settled. -/
theorem WovenAt.fileReport {marker : String} (h : v.WovenAt marker root place files w)
    (hrest : rest ∈ files) (hfile : v.kind? (place ++ rest) = some .file) :
    w.fileReport marker root place rest = (v.fileReport marker root place rest).settled := by
  obtain ⟨content, hcontent⟩ := kind?_eq_file.1 hfile
  rw [Volume.fileReport, h.treated rest hrest content hcontent, Option.getD_some,
    Codec.treat_treat, Volume.fileReport, hcontent, Option.getD_some]
  rfl

theorem WovenAt.stays (h : v.WovenAt settings.marker root place files w)
    (hfiles : v.ListsModules settings root place files) : w.Stays settings root place := by
  intro rest content summary hcontent hmodule
  have hfile : v.kind? (place ++ rest) = some .file := by
    rw [← h.alike]
    exact kind?_eq_file.2 ⟨content, hcontent⟩
  obtain ⟨before, hbefore⟩ := kind?_eq_file.1 hfile
  have htreated := h.treated rest ((hfiles.mem rest).2 ⟨hfile, hmodule⟩) before hbefore
  rw [hcontent] at htreated
  cases htreated
  rw [Codec.treat_treat]
  exact FileOutcome.settled_ne_woven _ summary

/-- **A second pass over a directory tree changes nothing.** Let `root` lead to a directory with a
plain tree below it, and let failures not end a pass. The second of two passes leaves the volume as
it is. It reports what the first one did, file by file and in the same order, except that a file
that was woven is unchanged now, with the same name and injection points and no replacement. So it
succeeds if the first one did, and counts no replacement. -/
theorem weaveTree_twice (h : v.Rooted base root place) (settings : WeaverSettings) :
    ∃ first second after,
      v.weaveTree base { settings with failFast := false } root = (.ok first, after) ∧
      after.weaveTree base { settings with failFast := false } root = (.ok second, after) ∧
      second = first.settled ∧ second.isSuccess = first.isSuccess ∧ second.sites = 0 := by
  obtain ⟨files, after, hfiles, hafter, hfirst⟩ := h.exists_weaveTree_goingOn settings
  have hagain := h.alike hafter.alike
  obtain ⟨files', last, hfiles', -, hsecond⟩ := hagain.exists_weaveTree_goingOn settings
  obtain rfl := hfiles.unique hfiles' hafter.alike
  have hlast : last = after := by
    have hvolume : (after.weaveTree base { settings with failFast := false } root).2 = after :=
      hagain.volume_weaveTree (hafter.stays hfiles)
    rwa [hsecond] at hvolume
  rw [hlast] at hsecond
  have hreports : files'.map (after.fileReport settings.marker root place) =
      (files'.map (v.fileReport settings.marker root place)).map FileReport.settled := by
    rw [List.map_map]
    exact List.map_congr_left fun rest hrest =>
      hafter.fileReport hrest ((hfiles.mem rest).1 hrest).1
  rw [hreports] at hsecond
  let first : Report := { root, files := files'.map (v.fileReport settings.marker root place) }
  exact ⟨first, first.settled, after, hfirst, hsecond, rfl, first.isSuccess_settled,
    first.sites_settled⟩

/-- A directory with a text file and with another directory, in which there are a module and an
empty file that has the name of one. -/
def orchard : Volume where
  root := [("tree", .directory [("inner", .directory [("b.rwm", .file Codec.sample.bytes),
    ("a.rwm", .file [])]), ("c.txt", .file [])])]

theorem rooted_orchard : orchard.Rooted [] "tree" ["tree"] := by
  have hleads : orchard.Leads linkLimit [] ["tree"] ["tree"] :=
    .enter (by decide) (by decide) (by decide) rfl .done
  have hfind : orchard.find [] "tree" = .ok ["tree"] := by
    have hparts : Path.parts "tree" = ["tree"] := by decide +kernel
    have hfault : pathFault? "tree" = none := by decide +kernel
    have hfollow : orchard.follow [] "tree" = .ok (.found ["tree"]) := by
      rw [follow, hfault, hparts]
      exact hleads.followParts
    rw [find, hfollow]
  have hinner : orchard.Plain (Path.join "tree" "inner") ["tree", "inner"] := by
    refine plain_of_files rfl (by decide) ?_ (by decide +kernel)
    simp only [List.forall_mem_cons]
    exact ⟨⟨rfl, ⟨by decide, by decide, by decide, by decide⟩, by decide +kernel⟩,
      ⟨rfl, ⟨by decide, by decide, by decide, by decide⟩, by decide +kernel⟩,
      fun _ hmem => (List.not_mem_nil hmem).elim⟩
  have hplain : orchard.Plain "tree" ["tree"] := by
    refine plain_directory rfl (by decide +kernel) (by decide) ?_
    simp only [List.forall_mem_cons]
    exact ⟨⟨⟨by decide, by decide, by decide, by decide⟩, hinner⟩,
      ⟨⟨by decide, by decide, by decide, by decide⟩, plain_file rfl (by decide +kernel)⟩,
      fun _ hmem => (List.not_mem_nil hmem).elim⟩
  exact ⟨hfind, rfl, hplain⟩

theorem weaveTree_twice_orchard :
    ∃ first second after,
      orchard.weaveTree [] { marker := "A" } "tree" = (.ok first, after) ∧
      after.weaveTree [] { marker := "A" } "tree" = (.ok second, after) ∧
      second = first.settled ∧ ¬ first.isSuccess ∧ ¬ second.isSuccess ∧ second.sites = 0 ∧
      after.content? ["tree", "inner", "b.rwm"] ≠ orchard.content? ["tree", "inner", "b.rwm"] := by
  obtain ⟨first, second, after, hfirst, hsecond, hsettled, hsuccess, hsites⟩ :=
    weaveTree_twice rooted_orchard { marker := "A" }
  obtain ⟨files, woven, hfiles, hwoven, hreport⟩ :=
    rooted_orchard.exists_weaveTree_goingOn { marker := "A" }
  rw [hfirst] at hreport
  cases hreport
  have hmodule : ["inner", "b.rwm"] ∈ files := (hfiles.mem _).2 ⟨rfl, by decide +kernel⟩
  have hempty : ["inner", "a.rwm"] ∈ files := (hfiles.mem _).2 ⟨rfl, by decide +kernel⟩
  have hfails : (orchard.fileReport "A" "tree" ["tree"] ["inner", "a.rwm"]).error? ≠ none := by
    decide +kernel
  have hunsuccessful : ¬ Report.isSuccess
      { root := "tree", files := files.map (orchard.fileReport "A" "tree" ["tree"]) } := by
    rw [Report.isSuccess_iff]
    exact fun h => hfails (h.2 _ (List.mem_map_of_mem hempty))
  refine ⟨_, second, after, hfirst, hsecond, hsettled, hunsuccessful, ?_, hsites, ?_⟩
  · rw [hsuccess]
    exact hunsuccessful
  · have htreated := hwoven.treated _ hmodule Codec.sample.bytes rfl
    intro heq
    have hchanged : (Codec.treat "A" (Path.below "tree" ["inner", "b.rwm"])
        Codec.sample.bytes).2 ≠ Codec.sample.bytes := by decide +kernel
    exact hchanged (Option.some.inj (htreated.symm.trans heq))

end Volume

end LateBinding
