import Crossref.Config
import Crossref.Proofs.Config.Patterns

/-!
# Proofs — config — where a project stands

A project's libraries are seen from its root, so whether a file lies in one of them does not depend
on where the root is.  Patterns are matched against whole paths: a file is left out, or taken for
generated code, when its path below the root is matched, and also when a match begins in the
directories above.  Two projects with the same files below different roots treat a file alike unless
such a match begins above one of the roots only.

* `isUnder_join`: libraries do not depend on the root.
* `shouldExclude_join`, `isGenerated_join`: what patterns find below the root, and above.
* `classified_alike_iff`: when two roots make no difference.
-/

namespace Crossref

/-! ### Paths below a root -/

namespace Path

/-- The topmost directory. -/
def topmost : Path := ⟨"/"⟩

/-- What is written before the slash behind which a path below the root begins. -/
def above (root : Path) : List Char :=
  if Text.endsWithChar root.text '/' then root.text.toList.dropLast else root.text.toList

variable {root p q : Path}

theorem isAbsolute_iff : p.isAbsolute = true ↔ p.text.toList.head? = some '/' := by
  rw [isAbsolute, Text.startsWith, List.isPrefixOf_iff_prefix]
  constructor
  · rintro ⟨rest, hrest⟩
    rw [← hrest]
    rfl
  · intro h
    obtain ⟨rest, hrest⟩ := List.head?_eq_some_iff.1 h
    exact ⟨rest, hrest.symm⟩

theorem above_append (root : Path) (text : List Char) :
    root.above ++ '/' :: text =
      root.text.toList ++ if Text.endsWithChar root.text '/' then text else '/' :: text := by
  unfold above
  split
  · next hend =>
    have hlast : root.text.toList.dropLast ++ ['/'] = root.text.toList :=
      List.dropLast_append_getLast? '/' (beq_iff_eq.1 hend)
    rw [List.append_cons, hlast]
  · rfl

theorem head?_above (hroot : root.isAbsolute = true) (text : List Char) :
    (root.above ++ '/' :: text).head? = some '/' := by
  rw [above_append, List.head?_append, isAbsolute_iff.1 hroot]
  rfl

/-- How a path below a root is written. -/
theorem toList_join (hroot : root.isAbsolute = true) (hq : q.isAbsolute = false) :
    (root.join q).text.toList = root.above ++ '/' :: q.text.toList := by
  have hne : root.text ≠ "" := by
    intro h
    rw [isAbsolute_iff, h] at hroot
    cases hroot
  rw [above_append, join, if_neg (by simp [hq])]
  by_cases hend : Text.endsWithChar root.text '/' = true <;> simp [hend, hne]

/-- The components of a path below a root are those of the root and then its own. -/
theorem components_join (hroot : root.isAbsolute = true) (hq : q.isAbsolute = false) :
    (root.join q).components =
      .root :: (componentsOf ((root.above.splitOn '/').map String.ofList) ++
        componentsOf (Text.splitOn q.text '/')) := by
  have habs : (root.join q).isAbsolute = true := by
    rw [isAbsolute_iff, toList_join hroot hq]
    exact head?_above hroot _
  have hsplit : Text.splitOn (root.join q).text '/' =
      (root.above.splitOn '/').map String.ofList ++ Text.splitOn q.text '/' := by
    rw [Text.splitOn, Text.splitOn, toList_join hroot hq, ← List.map_append]
    exact congrArg _ (List.splitOnP_append_cons _ _ (by simp))
  rw [components, habs, if_pos rfl, hsplit, componentsOf, List.filterMap_append]
  rfl

/-- **Whether a path below a root lies in a directory below it** does not depend on the root. -/
theorem isUnder_join (hroot : root.isAbsolute = true) (hp : p.isAbsolute = false)
    (hq : q.isAbsolute = false) :
    (root.join q).isUnder (root.join p) = (topmost.join q).isUnder (topmost.join p) := by
  have hseen : ∀ r : Path, r.isAbsolute = true → ((r.join q).isUnder (r.join p) = true ↔
      componentsOf (Text.splitOn p.text '/') <+: componentsOf (Text.splitOn q.text '/')) := by
    intro r hr
    rw [isUnder, List.isPrefixOf_iff_prefix, components_join hr hp, components_join hr hq,
      List.cons_prefix_cons, List.prefix_append_right_inj, eq_self, true_and]
  rw [Bool.eq_iff_iff, hseen root hroot, hseen topmost (by decide)]

end Path

/-! ### Patterns above a root -/

namespace Config

/-- One of the patterns finds something that begins above the root and may go on below it. -/
def foundAbove (patterns : List String) (root q : Path) : Bool :=
  patterns.any fun p => Glob.matchesAbove p.toList root.above ('/' :: q.text.toList)

section Below

variable {c : Config} {root q : Path} (hroot : root.isAbsolute = true) (hq : q.isAbsolute = false)
include hroot hq

theorem anyMatch_join {patterns : List String}
    (hpatterns : ∀ p ∈ patterns, Glob.begins "**/".toList p.toList = true) :
    Glob.anyMatch patterns (root.join q).text =
      (Glob.anyMatch patterns (Path.topmost.join q).text || foundAbove patterns root q) := by
  have hmatch : ∀ p ∈ patterns, Glob.isMatch p.toList (root.join q).text.toList =
      (Glob.isMatch p.toList (Path.topmost.join q).text.toList ||
        Glob.matchesAbove p.toList root.above ('/' :: q.text.toList)) := by
    intro p hp
    have htop : (Path.topmost.join q).text.toList = '/' :: q.text.toList :=
      Path.toList_join (by decide) hq
    rw [Path.toList_join hroot hq, htop]
    exact Glob.isMatch_append (hpatterns p hp) (Path.head?_above hroot _) rfl
  rw [Glob.anyMatch, Glob.anyMatch, foundAbove, Bool.eq_iff_iff]
  simp only [Bool.or_eq_true, List.any_eq_true, ← exists_or, ← and_or_left]
  refine exists_congr fun p => and_congr_right fun hp => ?_
  rw [hmatch p hp, Bool.or_eq_true]

/-- **A path is left out** when it is left out below its root, or for what is found above. -/
theorem shouldExclude_join
    (hpatterns : ∀ p ∈ c.exclude, Glob.begins "**/".toList p.toList = true) :
    c.shouldExclude (root.join q) =
      (c.shouldExclude (Path.topmost.join q) || foundAbove c.exclude root q) :=
  anyMatch_join hroot hq hpatterns

/-- **A path holds generated code** when it does so below its root, or for what is found above. -/
theorem isGenerated_join
    (hpatterns : ∀ p ∈ c.generatedPatterns, Glob.begins "**/".toList p.toList = true) :
    c.isGenerated (root.join q) =
      (c.isGenerated (Path.topmost.join q) || foundAbove c.generatedPatterns root q) :=
  anyMatch_join hroot hq hpatterns

/-- Libraries are seen from the root, wherever it is. -/
theorem isUnder_join {directories : List Path}
    (hrelative : ∀ d ∈ directories, d.isAbsolute = false) :
    isUnder directories root (root.join q) =
      isUnder directories Path.topmost (Path.topmost.join q) := by
  rw [isUnder, isUnder, Bool.eq_iff_iff]
  simp only [List.any_eq_true]
  refine exists_congr fun d => and_congr_right fun hd => ?_
  rw [Path.isUnder_join hroot (hrelative d hd) hq]

end Below

/-! ### Two roots -/

section TwoRoots

variable {c : Config} {root₁ root₂ q : Path}

/-- **When two roots make no difference** to a file below them: to whether it is left out and to its
origin.  They make none unless a match begins above one of them only, and not even then if the file
is matched below its root anyway, or lies in a library. -/
theorem classified_alike_iff
    (hlibraries : ∀ d ∈ c.libraryRoots ++ c.librarySourceRoots, d.isAbsolute = false)
    (hpatterns : ∀ p ∈ c.exclude ++ c.generatedPatterns, Glob.begins "**/".toList p.toList = true)
    (hroot₁ : root₁.isAbsolute = true) (hroot₂ : root₂.isAbsolute = true)
    (hq : q.isAbsolute = false) :
    (c.shouldExclude (root₁.join q) = c.shouldExclude (root₂.join q) ↔
      c.shouldExclude (Path.topmost.join q) = true ∨
        foundAbove c.exclude root₁ q = foundAbove c.exclude root₂ q) ∧
    ∀ language,
      c.originOf root₁ (root₁.join q) language = c.originOf root₂ (root₂.join q) language ↔
      isUnder (c.libraryRoots ++ c.librarySourceRoots) Path.topmost (Path.topmost.join q) = true ∨
        c.isGenerated (Path.topmost.join q) = true ∨
        foundAbove c.generatedPatterns root₁ q = foundAbove c.generatedPatterns root₂ q := by
  have hexclude := fun p hp => hpatterns p (List.mem_append_left _ hp)
  have hgenerated := fun p hp => hpatterns p (List.mem_append_right _ hp)
  have hstubs := fun d hd => hlibraries d (List.mem_append_left _ hd)
  have hsources := fun d hd => hlibraries d (List.mem_append_right _ hd)
  refine ⟨?_, fun language => ?_⟩
  · rw [shouldExclude_join hroot₁ hq hexclude, shouldExclude_join hroot₂ hq hexclude]
    cases c.shouldExclude (Path.topmost.join q) <;> simp
  · have hlibrary : isUnder (c.libraryRoots ++ c.librarySourceRoots) Path.topmost
        (Path.topmost.join q) = (isUnder c.libraryRoots Path.topmost (Path.topmost.join q) ||
          isUnder c.librarySourceRoots Path.topmost (Path.topmost.join q)) := List.any_append
    unfold originOf
    rw [hlibrary, isUnder_join hroot₁ hq hstubs, isUnder_join hroot₂ hq hstubs,
      isUnder_join hroot₁ hq hsources, isUnder_join hroot₂ hq hsources,
      isGenerated_join hroot₁ hq hgenerated, isGenerated_join hroot₂ hq hgenerated]
    -- what decides: a library of either kind, a match below the root, and one above each root
    cases isUnder c.libraryRoots Path.topmost (Path.topmost.join q) <;>
      cases isUnder c.librarySourceRoots Path.topmost (Path.topmost.join q) <;>
      cases c.isGenerated (Path.topmost.join q) <;>
      cases foundAbove c.generatedPatterns root₁ q <;>
      cases foundAbove c.generatedPatterns root₂ q <;>
      cases language <;> simp

/-- A build directory below the root is left out under every root. -/
theorem classified_alike_iff_moved :
    ({} : Config).shouldExclude (Path.join ⟨"/p"⟩ ⟨"app/build/A.kt"⟩) =
      ({} : Config).shouldExclude (Path.join ⟨"/home/dev/p/"⟩ ⟨"app/build/A.kt"⟩) ∧
    ({} : Config).originOf ⟨"/p"⟩ (Path.join ⟨"/p"⟩ ⟨"app/build/A.kt"⟩) .kotlin =
      ({} : Config).originOf ⟨"/home/dev/p/"⟩
        (Path.join ⟨"/home/dev/p/"⟩ ⟨"app/build/A.kt"⟩) .kotlin := by
  have hroot₁ : (⟨"/p"⟩ : Path).isAbsolute = true := by decide
  have hroot₂ : (⟨"/home/dev/p/"⟩ : Path).isAbsolute = true := by decide
  have h := classified_alike_iff (c := {}) (q := ⟨"app/build/A.kt"⟩) (by simp) (by decide)
    hroot₁ hroot₂ (by decide)
  exact ⟨h.1.2 (.inl (by decide)), (h.2 .kotlin).2 (.inr (.inr (by decide)))⟩

/-- Under a root below a build directory every file is left out, and under one below a directory of
generated code every file is taken for generated. -/
theorem classified_apart_build :
    ({} : Config).shouldExclude (Path.join ⟨"/build/p"⟩ ⟨"src/A.kt"⟩) = true ∧
    ({} : Config).shouldExclude (Path.join ⟨"/p"⟩ ⟨"src/A.kt"⟩) = false ∧
    ({} : Config).originOf ⟨"/generated/p"⟩ (Path.join ⟨"/generated/p"⟩ ⟨"src/A.kt"⟩) .kotlin =
      (.sourceGenerated, false) ∧
    ({} : Config).originOf ⟨"/p"⟩ (Path.join ⟨"/p"⟩ ⟨"src/A.kt"⟩) .kotlin = (.source, false) := by
  decide

end TwoRoots

end Config

end Crossref
