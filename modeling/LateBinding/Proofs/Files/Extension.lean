import LateBinding.Proofs.Files.Path
import LateBinding.Weaving.Tree
import Mathlib.Data.List.TakeWhile

set_option autoImplicit false

/-! # Which files are module files

The extension of a file name is what follows its last dot, so no extension has a dot in it. The
settings say which extension module files have, and their check refuses one that is blank or that
opens with a dot. It does not look further: a dot later on, a slash or a NUL passes it, and then
there is no file name with that extension at all. `WeaverSettings.isModuleFile_of_check` says which
names are those of module files under accepted settings, and for which of these there are any.
-/

namespace LateBinding

namespace Path

/-! ## What follows the last dot -/

theorem splitLastDot_append (before : List Char) {after : List Char} (h : '.' ∉ after) :
    splitLastDot (before ++ '.' :: after) = some (before, after) := by
  have hafter : ∀ c ∈ after.reverse, decide (c ≠ '.') = true := by
    intro c hc
    rw [decide_eq_true_iff]
    rintro rfl
    exact h (List.mem_reverse.1 hc)
  have hreverse : (before ++ '.' :: after).reverse = after.reverse ++ '.' :: before.reverse := by
    simp
  rw [splitLastDot, hreverse, List.dropWhile_append_of_pos hafter,
    List.takeWhile_append_of_pos hafter]
  simp

theorem splitLastDot_of_not_mem {name : List Char} (h : '.' ∉ name) : splitLastDot name = none := by
  have hname : name.reverse.dropWhile (fun c => decide (c ≠ '.')) = [] := by
    rw [List.dropWhile_eq_nil_iff]
    intro c hc
    rw [decide_eq_true_iff]
    rintro rfl
    exact h (List.mem_reverse.1 hc)
  rw [splitLastDot, hname]

/-- A name is split at the one dot with no other after it. -/
theorem splitLastDot_eq_some {name before after : List Char} :
    splitLastDot name = some (before, after) ↔ name = before ++ '.' :: after ∧ '.' ∉ after := by
  constructor
  · intro h
    by_cases hdot : '.' ∈ name
    · -- the last dot is the first one from behind
      obtain ⟨behind, front, hsplit, hbehind⟩ :=
        List.eq_append_cons_of_mem (List.mem_reverse.2 hdot)
      have hname : name = front.reverse ++ '.' :: behind.reverse := by
        rw [← List.reverse_reverse name, hsplit]
        simp
      have hlast : '.' ∉ behind.reverse := fun hmem => hbehind (List.mem_reverse.1 hmem)
      rw [hname, splitLastDot_append _ hlast] at h
      cases h
      exact ⟨hname, hlast⟩
    · rw [splitLastDot_of_not_mem hdot] at h
      cases h
  · rintro ⟨rfl, h⟩
    exact splitLastDot_append before h

/-- The extension follows the last dot, and something stands before that dot. -/
theorem nameExtension?_eq_some {name extension : String} :
    nameExtension? name = some extension ↔
      ('.' ∉ extension.toList) ∧ ∃ stem, stem ≠ "" ∧ name = stem ++ "." ++ extension := by
  have hjoined (stem : String) : (stem ++ "." ++ extension).toList =
      stem.toList ++ '.' :: extension.toList := by simp
  constructor
  · intro h
    unfold nameExtension? at h
    split at h
    · next before after hsplit =>
        split at h
        · cases h
        · next hbefore =>
            cases h
            obtain ⟨hname, hdot⟩ := splitLastDot_eq_some.1 hsplit
            rw [String.toList_ofList]
            refine ⟨hdot, String.ofList before, ?_, ?_⟩
            · rwa [ne_eq, ← String.toList_eq_nil_iff, String.toList_ofList]
            · apply String.toList_injective
              simp [hname]
    · cases h
  · rintro ⟨hdot, stem, hstem, rfl⟩
    have hbefore : stem.toList ≠ [] := by simpa using hstem
    rw [nameExtension?, hjoined, splitLastDot_append _ hdot]
    simp [hbefore]

/-! ## File names -/

/-- A file could have this name, if not on every volume: nothing is said of its length. -/
structure IsFileName (name : String) : Prop where
  nonempty : name ≠ ""
  noSlash : '/' ∉ name.toList
  noNul : '\x00' ∉ name.toList

theorem dot_not_mem_of_extension? {path extension : String}
    (h : extension? path = some extension) : '.' ∉ extension.toList := by
  obtain ⟨name, -, hname⟩ := Option.bind_eq_some_iff.1 h
  exact (nameExtension?_eq_some.1 hname).1

/-- A name without a slash is the last part of itself. Two dots are not, since they stand for a
directory. -/
theorem extension?_of_noSlash {name : String} (hslash : '/' ∉ name.toList) (hup : name ≠ "..") :
    extension? name = nameExtension? name := by
  by_cases hdot : isDot name = true
  · have hname : name = "" ∨ name = "." := by simpa [isDot] using hdot
    rcases hname with rfl | rfl
    · rfl
    · rfl
  · have hfile : fileName? name = some name := by
      rw [fileName?, parts_of_not_mem hslash]
      simp [hdot, hup]
    rw [extension?, hfile]
    rfl

end Path

namespace WeaverSettings

variable {settings : WeaverSettings}

/-! ## Accepted settings -/

theorem check_eq_ok : settings.check = .ok () ↔
    ¬ Text.isAllBlank settings.extension ∧ settings.extension.toList.head? ≠ some '.' ∧
      ¬ Text.isAllBlank settings.marker := by
  unfold check
  split
  · next hblank => simp [hblank]
  · next hblank =>
      split
      · next hdotted => simp [hdotted]
      · next hdotted =>
          split
          · next hmarker => simp [hmarker]
          · next hmarker => simp [hblank, hdotted, hmarker]

/-- The first character of an accepted extension is no dot. -/
theorem dot_mem_tail_iff (h : settings.check = .ok ()) :
    '.' ∈ settings.extension.toList.tail ↔ '.' ∈ settings.extension.toList := by
  obtain ⟨-, hhead, -⟩ := check_eq_ok.1 h
  cases hchars : settings.extension.toList with
  | nil => rfl
  | cons first rest =>
      have hfirst : '.' ≠ first := by
        rintro rfl
        exact hhead (by rw [hchars]; rfl)
      simp [hfirst]

theorem isModuleFile_iff (h : settings.check = .ok ()) {name : String}
    (hslash : '/' ∉ name.toList) :
    settings.isModuleFile name ↔ '.' ∉ settings.extension.toList ∧
      ∃ stem, stem ≠ "" ∧ name = stem ++ "." ++ settings.extension := by
  rw [isModuleFile, decide_eq_true_iff]
  by_cases hup : name = ".."
  · -- its last dot is followed by nothing, and an accepted extension is not empty
    subst hup
    refine iff_of_false nofun ?_
    rintro ⟨hdot, hname⟩
    have hextension := (Path.nameExtension?_eq_some.2 ⟨hdot, hname⟩).symm
    have hempty : settings.extension = "" := Option.some.inj hextension
    obtain ⟨hblank, -, -⟩ := check_eq_ok.1 h
    rw [hempty] at hblank
    exact hblank rfl
  · rw [Path.extension?_of_noSlash hslash hup, Path.nameExtension?_eq_some]

/-- **Which names are those of module files.** Under settings that are accepted, a file name is that
of a module file when it is something, a dot and the extension, unless the extension has a dot
itself. There are such file names if and only if the extension has no dot after its first
character, no slash and no NUL. -/
theorem isModuleFile_of_check (h : settings.check = .ok ()) :
    (∀ name, Path.IsFileName name →
      (settings.isModuleFile name ↔ '.' ∉ settings.extension.toList.tail ∧
        ∃ stem, stem ≠ "" ∧ name = stem ++ "." ++ settings.extension)) ∧
    ((∃ name, Path.IsFileName name ∧ settings.isModuleFile name) ↔
      '.' ∉ settings.extension.toList.tail ∧ '/' ∉ settings.extension.toList ∧
        '\x00' ∉ settings.extension.toList) := by
  simp only [dot_mem_tail_iff h]
  refine ⟨fun name hname => isModuleFile_iff h hname.noSlash, ?_⟩
  constructor
  · rintro ⟨name, hname, hmodule⟩
    obtain ⟨hdot, stem, -, rfl⟩ := (isModuleFile_iff h hname.noSlash).1 hmodule
    have hmem {c : Char} (hc : c ∈ settings.extension.toList) :
        c ∈ (stem ++ "." ++ settings.extension).toList := by
      rw [String.toList_append]
      exact List.mem_append_right _ hc
    exact ⟨hdot, fun hslash => hname.noSlash (hmem hslash), fun hnul => hname.noNul (hmem hnul)⟩
  · rintro ⟨hdot, hslash, hnul⟩
    have hname : Path.IsFileName ("x" ++ "." ++ settings.extension) := by
      refine ⟨?_, ?_, ?_⟩
      · simp
      · simpa using hslash
      · simpa using hnul
    exact ⟨_, hname, (isModuleFile_iff h hname.noSlash).2 ⟨hdot, "x", by decide, rfl⟩⟩

/-- Blanks inside an extension do no harm. -/
theorem isModuleFile_of_check_blank :
    check { extension := "rwm 2" } = .ok () ∧
    ∃ name, Path.IsFileName name ∧ isModuleFile { extension := "rwm 2" } name := by
  have hcheck : check { extension := "rwm 2" } = .ok () := by decide
  exact ⟨hcheck, (isModuleFile_of_check hcheck).2.2 (by decide)⟩

/-- An extension with a dot inside is accepted, and no path name has it. -/
theorem isModuleFile_of_check_dotted :
    check { extension := "tar.gz" } = .ok () ∧
    ∀ path, isModuleFile { extension := "tar.gz" } path = false := by
  refine ⟨by decide, ?_⟩
  intro path
  refine decide_eq_false fun hextension => ?_
  exact Path.dot_not_mem_of_extension? hextension (by decide)

end WeaverSettings

end LateBinding
