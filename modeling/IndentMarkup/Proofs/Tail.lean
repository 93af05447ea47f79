import IndentMarkup.Element.Declaration
import IndentMarkup.Proofs.Text

/-! What is written behind the names and the group of a declaration. A tail is
blanks and a core that does not start with one, so its parts can be told from
how it is written, and reading it gives the body that its form stands for. -/
namespace IndentMarkup
open Text

abbrev Gap := { s : Text // ∀ c ∈ s, isBlank c = true }

/-- Text that stands on the line of a declaration and means neither code nor a void element. -/
structure IsInline (content : Text) : Prop where
  given : content ≠ []
  flush : Off isBlank content
  plain : Off (· = '=') content
  other : content ≠ ['/']

inductive Tail
  | nothing
  | slash (gap : Gap)
  | code (gap : Gap) (expression : Text) (given : trim expression ≠ [])
  | inline (gap : Gap) (content : Text) (apart : gap.val ≠ []) (valid : IsInline content)

namespace Tail

def gap : Tail → Text
  | nothing => []
  | slash gap => gap
  | code gap _ _ => gap
  | inline gap _ _ _ => gap

def core : Tail → Text
  | nothing => []
  | slash _ => ['/']
  | code _ expression _ => '=' :: expression
  | inline _ content _ _ => content

def spelling (tail : Tail) : Text := tail.gap ++ tail.core

def body : Tail → Body
  | nothing => .nested
  | slash _ => .void
  | code _ expression _ => .echo (trim expression)
  | inline _ content _ _ => .text content

theorem isBlank_of_mem_gap (tail : Tail) : ∀ c ∈ tail.gap, isBlank c = true := by
  cases tail with
  | nothing => exact fun _ member => nomatch member
  | slash gap => exact gap.2
  | code gap => exact gap.2
  | inline gap => exact gap.2

theorem off_core (tail : Tail) : Off isBlank tail.core := by
  cases tail with
  | nothing => exact off_nil _
  | slash => exact off_cons.2 (by decide)
  | code => exact off_cons.2 (by decide)
  | inline _ _ _ valid => exact valid.flush

theorem margin_spelling (tail : Tail) : margin tail.spelling = tail.gap :=
  tail.off_core.takeWhile_append tail.isBlank_of_mem_gap

theorem trimStart_spelling (tail : Tail) : trimStart tail.spelling = tail.core :=
  tail.off_core.dropWhile_append tail.isBlank_of_mem_gap

theorem eq_of_gap_core {first second : Tail} (gaps : first.gap = second.gap)
    (cores : first.core = second.core) : first = second := by
  cases first <;> cases second <;> simp only [gap, core] at gaps cores
  case nothing.nothing => rfl
  case slash.slash => rw [Subtype.ext gaps]
  case code.code =>
    obtain ⟨-, rfl⟩ := List.cons.inj cores
    obtain rfl := Subtype.ext gaps
    rfl
  case inline.inline =>
    obtain rfl := cores
    obtain rfl := Subtype.ext gaps
    rfl
  case inline.nothing valid => exact absurd cores valid.given
  case inline.slash valid _ => exact absurd cores valid.other
  case inline.code valid _ _ _ =>
    have plain := valid.plain
    simp [cores] at plain
  case nothing.inline valid => exact absurd cores.symm valid.given
  case slash.inline valid => exact absurd cores.symm valid.other
  case code.inline valid =>
    have plain := valid.plain
    simp [← cores] at plain
  all_goals simp at cores

theorem spelling_injective {first second : Tail} (same : first.spelling = second.spelling) :
    first = second := by
  apply eq_of_gap_core
  · rw [← margin_spelling, same, margin_spelling]
  · rw [← trimStart_spelling, same, trimStart_spelling]

end Tail

theorem startsBlank_append {gap : Text} (blank : ∀ c ∈ gap, isBlank c = true) (some : gap ≠ [])
    (s : Text) : startsBlank (gap ++ s) = true := by
  cases gap with
  | nil => exact absurd rfl some
  | cons c gap => exact blank c List.mem_cons_self

namespace Body

theorem read?_spelling (tail : Tail) : read? tail.spelling = some tail.body := by
  have core := tail.trimStart_spelling
  cases tail with
  | nothing => rfl
  | slash gap =>
    have some : (Tail.slash gap).spelling.isEmpty = false := by simp [Tail.spelling, Tail.core]
    rw [read?, some, core]
    rfl
  | code gap expression given =>
    have some : (Tail.code gap expression given).spelling.isEmpty = false := by
      simp [Tail.spelling, Tail.core]
    rw [read?, some, core]
    simp [Tail.core, Tail.body, nonempty?, given]
  | inline gap content apart valid =>
    have some : (Tail.inline gap content apart valid).spelling.isEmpty = false := by
      simp [Tail.spelling, Tail.gap, apart]
    have starts : startsBlank (Tail.inline gap content apart valid).spelling = true :=
      startsBlank_append gap.2 apart content
    rw [read?, some, core, starts]
    simp only [Bool.false_eq_true, if_false, Tail.core, Tail.body]
    split
    · exact absurd rfl valid.other
    · have plain := valid.plain
      simp at plain
    · rfl

theorem exists_tail_of_read? {s : Text} {body : Body} (solid : Solid s)
    (read : read? s = some body) : ∃ tail : Tail, tail.spelling = s := by
  have parts : margin s ++ trimStart s = s := margin_append_trimStart s
  have blank : ∀ c ∈ margin s, isBlank c = true := fun _ => isBlank_of_mem_margin
  by_cases empty : s.isEmpty
  · exact ⟨.nothing, (List.isEmpty_iff.1 empty).symm⟩
  · rw [read?, if_neg empty] at read
    split at read
    next slash =>
      refine ⟨.slash ⟨margin s, blank⟩, ?_⟩
      rw [slash] at parts
      exact parts
    next expression code =>
      have given : trim expression ≠ [] := by
        intro missing
        simp [missing, nonempty?] at read
      refine ⟨.code ⟨margin s, blank⟩ expression given, ?_⟩
      rw [code] at parts
      exact parts
    next content slash code =>
      have starts : startsBlank s = true := by
        cases first : startsBlank s with
        | true => rfl
        | false => simp [first] at read
      have given : trimStart s ≠ [] :=
        solid.trimStart_ne_nil fun missing => empty (List.isEmpty_iff.2 missing)
      exact ⟨.inline ⟨margin s, blank⟩ (trimStart s) (margin_ne_nil starts)
        ⟨given, off_dropWhile isBlank s, off_char code, slash⟩, parts⟩

end Body

end IndentMarkup
