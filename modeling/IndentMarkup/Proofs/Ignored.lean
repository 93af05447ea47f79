import IndentMarkup.Proofs.Origin
import IndentMarkup.Proofs.Relocation
import Mathlib.Data.List.Basic

/-! Lines that are passed over. Blank lines and silent comments can be put in or
taken out anywhere, with any indentation: a template compiles as the lines that are
kept of it do, and only the line numbers follow. -/
namespace IndentMarkup
open Text

namespace Statement

theorem isIgnored_read_iff (s : Text) :
    (read s).isIgnored = true ↔ readIgnored? s = some .ignored := by
  constructor
  · intro ignored
    have origin := origin_read s
    cases made : read s with
    | ignored =>
      rw [made] at origin
      exact origin
    | _ => simp [made, isIgnored] at ignored
  · intro ignored
    simp [read, rules, ignored, isIgnored]

end Statement

/-- A raw line with nothing on it, or with a comment that is not written out. -/
def isPassedOver (raw : Text) : Bool :=
  (trim raw).isEmpty || "-#".toList.isPrefixOf (trim raw)

theorem Line.isIgnored_read (number : Nat) (raw : Text) :
    (Line.read number raw).isIgnored = isPassedOver raw := by
  have rule : Statement.readIgnored? (trim raw) =
      if isPassedOver raw then some .ignored else none := rfl
  have ignored := Statement.isIgnored_read_iff (trim raw)
  rw [rule] at ignored
  rw [Bool.eq_iff_iff]
  refine ignored.trans ?_
  simp

theorem Line.trim_ne_nil_of_not_ignored {number : Nat} {raw : Text}
    (counts : (Line.read number raw).isIgnored = false) : trim raw ≠ [] := by
  intro empty
  rw [isIgnored_read, isPassedOver, empty] at counts
  cases counts

def kept (raws : List Text) : List Text := raws.filter (!isPassedOver ·)

/-- The number that the `n`th of the lines kept has among all. -/
def keptNumber (raws : List Text) (n : Nat) : Nat :=
  (raws.findIdxs (!isPassedOver ·) 1).getD (n - 1) 0

theorem counted_readLines (first : Nat) (raws : List Text) :
    counted (readLines first raws) =
      List.zipWith Line.read (raws.findIdxs (!isPassedOver ·) first) (kept raws) := by
  induction raws generalizing first with
  | nil => rfl
  | cons raw raws ih =>
    have ignored := Line.isIgnored_read first raw
    cases passed : isPassedOver raw with
    | true =>
      rw [readLines, counted_cons_ignored (ignored.trans passed), ih]
      simp [kept, passed]
    | false =>
      rw [readLines, counted_cons (ignored.trans passed), ih]
      simp [kept, passed]

theorem readLines_eq_zipWith (first : Nat) (raws : List Text) :
    readLines first raws = List.zipWith Line.read (List.range' first raws.length) raws := by
  induction raws generalizing first with
  | nil => rfl
  | cons raw raws ih => simp [readLines, ih, List.range'_succ]

theorem map_keptNumber (raws : List Text) :
    (List.range' 1 (kept raws).length).map (keptNumber raws) =
      raws.findIdxs (!isPassedOver ·) 1 := by
  have same : (raws.findIdxs (!isPassedOver ·) 1).length = (kept raws).length := by
    rw [List.length_findIdxs, kept, List.countP_eq_length_filter]
  apply List.ext_getElem
  · simp [same]
  · intro index _ inside
    simp [keptNumber, List.getElem?_eq_getElem inside]

theorem counted_readLines_eq_map (raws : List Text) :
    counted (readLines 1 raws) =
      (readLines 1 (kept raws)).map (Line.move (keptNumber raws) 0) := by
  rw [counted_readLines, readLines_eq_zipWith, ← map_keptNumber, List.zipWith_map_left,
    List.map_zipWith]
  rfl

def renumber (f : Nat → Nat) : Except Fault Document → Except Fault Document
  | .ok document => .ok ⟨document.entries, document.warnings.map (Warning.renumber f)⟩
  | .error fault => .error (fault.renumber f)

theorem renumber_renumber (f g : Nat → Nat) (result : Except Fault Document) :
    renumber g (renumber f result) = renumber (g ∘ f) result := by
  cases result with
  | ok document =>
    have same : Warning.renumber g ∘ Warning.renumber f = Warning.renumber (g ∘ f) := by
      funext warning
      cases warning <;> rfl
    simp [renumber, same]
  | error fault => cases fault <;> rfl

theorem compileLines_eq_renumber (raws : List Text) :
    compileLines raws = renumber (keptNumber raws) (compileLines (kept raws)) := by
  have start : Compilation.Embedded (keptNumber raws) 0 [] [] [] {} {} :=
    ⟨⟨by simp, rfl, rfl⟩, rfl, rfl⟩
  have ran : ({} : Compilation).run (readLines 1 raws) = ({} : Compilation).run
      ((counted (readLines 1 (kept raws))).map (Line.move (keptNumber raws) 0)) := by
    rw [← counted_map_move, Compilation.run_counted, ← counted_readLines_eq_map,
      Compilation.run_counted]
  obtain ⟨succeeds, fails⟩ := start.compileLines ran
  cases compiled : compileLines (kept raws) with
  | ok document => simpa [renumber] using succeeds document compiled
  | error fault => simpa [renumber] using fails fault compiled

/-- A template compiles as the lines kept of it, and with the line numbers it has
them under. So templates of which the same lines are kept differ in nothing else. -/
theorem compileLines_kept (raws : List Text) :
    compileLines raws = renumber (keptNumber raws) (compileLines (kept raws)) ∧
    ∀ others, kept others = kept raws →
      renumber (fun _ => 0) (compileLines others) = renumber (fun _ => 0) (compileLines raws) := by
  refine ⟨compileLines_eq_renumber raws, ?_⟩
  intro others same
  rw [compileLines_eq_renumber others, compileLines_eq_renumber raws, same,
    renumber_renumber, renumber_renumber]
  rfl

theorem compileLines_kept_note :
    let noted := ["%ul", "", "     -# note", "  %li", "\t.a!"].map String.toList
    let spaced := ["%ul", "  %li", " \t ", "\t.a!"].map String.toList
    let spoiled := ["%ul", " -# note", "", "     %li"].map String.toList
    let shown (document : Document) := (document.code, document.warnings)
    kept noted = kept spaced ∧
      renumber (fun _ => 0) (compileLines noted) = renumber (fun _ => 0) (compileLines spaced) ∧
      (compileLines noted).map shown = .ok ("<ul>\n  <li>\n  </li>\n</ul>\n.a!".toList,
        [.tabIndentation 5, .literalFallback 5 ".a!".toList]) ∧
      (compileLines (kept noted)).map shown = .ok ("<ul>\n  <li>\n  </li>\n</ul>\n.a!".toList,
        [.tabIndentation 3, .literalFallback 3 ".a!".toList]) ∧
      compileLines spoiled = .error (.oddIndentation 4 5) ∧
      compileLines (kept spoiled) = .error (.oddIndentation 2 5) := by
  intro noted spaced spoiled shown
  have same : kept noted = kept spaced := by decide +kernel
  refine ⟨same, (compileLines_kept _).2 _ same, ?_, by decide +kernel, ?_, by decide +kernel⟩
  · rw [(compileLines_kept noted).1]
    decide +kernel
  · rw [(compileLines_kept spoiled).1]
    decide +kernel

end IndentMarkup
