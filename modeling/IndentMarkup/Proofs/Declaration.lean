import IndentMarkup.Proofs.Group
import IndentMarkup.Proofs.Name
import IndentMarkup.Proofs.Tail

/-! The grammar of declarations. A declaration is given by its parts, each of
them well-formed, and written by putting them behind each other. Every part ends
where the next can start, so the parts are recovered from what is written, and
reading it gives the element and the body that the parts stand for. -/
namespace IndentMarkup
open Text

def spellGroup : Option Text → Text
  | none => []
  | some raw => '(' :: (raw ++ [')'])

@[ext] structure Declaration where
  tag : Option Text
  id : Option Text
  classes : List Text
  group : Option Text
  tail : Tail
  tagName : ∀ name ∈ tag, IsName name
  idName : ∀ name ∈ id, IsName name
  classNames : ∀ name ∈ classes, IsName name
  enclosed : ∀ raw ∈ group, Encloses raw
  named : ¬(tag = none ∧ id = none ∧ classes = [])

namespace Declaration

def afterClasses (d : Declaration) : Text := spellGroup d.group ++ d.tail.spelling

def afterId (d : Declaration) : Text := spellChain '.' d.classes ++ d.afterClasses

def afterTag (d : Declaration) : Text := spellOptional '#' d.id ++ d.afterId

def spelling (d : Declaration) : Text := spellOptional '%' d.tag ++ d.afterTag

/-- The element declared; a group of blanks alone gives it no attributes. -/
def element (d : Declaration) : Element where
  tag := d.tag.getD "div".toList
  id := d.id
  classes := d.classes
  attributes := d.group.bind fun raw => if trim raw = [] then none else some (trim raw)

theorem starts_tail (tail : Tail) : Starts ['/', '='] tail.spelling := by
  cases tail with
  | nothing => exact fun _ missing => nomatch missing
  | slash gap => exact starts_append gap.2 starts_cons
  | code gap => exact starts_append gap.2 (starts_cons.cons '/')
  | inline gap content apart =>
    exact starts_of_startsBlank (startsBlank_append gap.2 apart content) _

theorem starts_afterClasses (d : Declaration) : Starts ['(', '/', '='] d.afterClasses := by
  unfold afterClasses
  cases d.group with
  | none => exact (starts_tail d.tail).cons '('
  | some raw => exact starts_cons

theorem starts_afterId (d : Declaration) : Starts ['.', '(', '/', '='] d.afterId := by
  unfold afterId
  cases d.classes with
  | nil => exact d.starts_afterClasses.cons '.'
  | cons name names => exact starts_cons

theorem starts_afterTag (d : Declaration) : Starts ['#', '.', '(', '/', '='] d.afterTag := by
  unfold afterTag
  cases d.id with
  | none => exact d.starts_afterId.cons '#'
  | some name => exact starts_cons

theorem optional_spelling (d : Declaration) : optional '%' d.spelling = (d.tag, d.afterTag) :=
  optional_append d.tagName (d.starts_afterTag.off_isNameChar (by decide))
    (d.starts_afterTag.off_char (by decide) (by decide))

theorem optional_afterTag (d : Declaration) : optional '#' d.afterTag = (d.id, d.afterId) :=
  optional_append d.idName (d.starts_afterId.off_isNameChar (by decide))
    (d.starts_afterId.off_char (by decide) (by decide))

theorem chain_afterId (d : Declaration) : chain '.' d.afterId = (d.classes, d.afterClasses) :=
  chain_append d.classNames (by decide) (d.starts_afterClasses.off_isNameChar (by decide))
    (d.starts_afterClasses.off_char (by decide) (by decide))

theorem head?_afterClasses (d : Declaration) :
    d.afterClasses.head? = some '(' ↔ d.group.isSome = true := by
  cases grouped : d.group with
  | none =>
    have off : Off (· = '(') d.afterClasses := by
      rw [afterClasses, grouped]
      exact (starts_tail d.tail).off_char (by decide) (by decide)
    simpa using fun first => off '(' first
  | some raw => simp [afterClasses, grouped, spellGroup]

theorem splitGroup?_afterClasses {d : Declaration} {raw : Text} (grouped : d.group = some raw) :
    splitGroup? d.afterClasses = some (raw, d.tail.spelling) := by
  refine splitGroup?_eq_some_iff.2 ⟨d.enclosed raw grouped, ?_⟩
  simp [afterClasses, grouped, spellGroup]

theorem readAttributes?_afterClasses (d : Declaration) :
    Element.readAttributes? d.afterClasses = some (d.element.attributes, d.tail.spelling) := by
  unfold Element.readAttributes?
  cases grouped : d.group with
  | none =>
    rw [if_neg (by simp [head?_afterClasses, grouped])]
    simp [afterClasses, element, grouped, spellGroup]
  | some raw =>
    rw [if_pos (by simp [head?_afterClasses, grouped]), splitGroup?_afterClasses grouped]
    simp [element, grouped, nonempty?]

theorem group_eq_of_afterClasses {first second : Declaration}
    (same : first.afterClasses = second.afterClasses) :
    first.group = second.group ∧ first.tail.spelling = second.tail.spelling := by
  have both : first.group.isSome = true ↔ second.group.isSome = true := by
    rw [← head?_afterClasses, same, head?_afterClasses]
  cases grouped : first.group with
  | none =>
    have ungrouped : second.group = none := by simpa [grouped] using both
    simpa [afterClasses, grouped, ungrouped, spellGroup] using same
  | some raw =>
    obtain ⟨other, grouped'⟩ : ∃ other, second.group = some other :=
      Option.isSome_iff_exists.1 (both.1 (by rw [grouped]; rfl))
    have split := splitGroup?_afterClasses grouped
    rw [same, splitGroup?_afterClasses grouped'] at split
    obtain ⟨rfl, rest⟩ := Prod.mk.inj (Option.some.inj split)
    exact ⟨grouped'.symm, rest.symm⟩

theorem spelling_injective {first second : Declaration}
    (same : first.spelling = second.spelling) : first = second := by
  have tags : (first.tag, first.afterTag) = (second.tag, second.afterTag) := by
    rw [← optional_spelling, same, optional_spelling]
  obtain ⟨tag, afterTag⟩ := Prod.mk.inj tags
  have ids : (first.id, first.afterId) = (second.id, second.afterId) := by
    rw [← optional_afterTag, afterTag, optional_afterTag]
  obtain ⟨id, afterId⟩ := Prod.mk.inj ids
  have chains : (first.classes, first.afterClasses) = (second.classes, second.afterClasses) := by
    rw [← chain_afterId, afterId, chain_afterId]
  obtain ⟨classes, afterClasses⟩ := Prod.mk.inj chains
  obtain ⟨group, tails⟩ := group_eq_of_afterClasses afterClasses
  exact Declaration.ext tag id classes group (Tail.spelling_injective tails)

theorem read?_spelling (d : Declaration) :
    Element.read? d.spelling = some (d.element, d.tail.body) := by
  have declared : (d.tag.isNone && d.id.isNone && d.classes.isEmpty) = false := by
    cases h : d.tag.isNone && d.id.isNone && d.classes.isEmpty with
    | false => rfl
    | true =>
      simp only [Bool.and_eq_true, Option.isNone_iff_eq_none, List.isEmpty_iff, and_assoc] at h
      exact absurd h d.named
  unfold Element.read?
  simp only [optional_spelling, optional_afterTag, chain_afterId, declared,
    readAttributes?_afterClasses, Body.read?_spelling, Bool.false_eq_true, if_false,
    Option.bind_eq_bind, Option.bind_some]
  rfl

theorem exists_mark (d : Declaration) :
    ∃ c rest, d.spelling = c :: rest ∧ (c = '%' ∨ c = '#' ∨ c = '.') := by
  unfold spelling afterTag afterId
  cases tag : d.tag with
  | some name => exact ⟨'%', _, rfl, by simp⟩
  | none =>
    cases id : d.id with
    | some name => exact ⟨'#', _, rfl, by simp⟩
    | none =>
      cases classes : d.classes with
      | cons name names => exact ⟨'.', _, rfl, by simp⟩
      | nil => exact absurd ⟨tag, id, classes⟩ d.named

end Declaration

namespace Element

theorem read?_eq_none {s : Text} (tag : Off (· = '%') s) (id : Off (· = '#') s)
    (cls : Off (· = '.') s) : read? s = none := by
  simp [read?, Text.optional, marked?_eq_none tag, marked?_eq_none id, chain_eq_nil cls]

theorem exists_group_of_readAttributes? {s rest : Text} {attributes : Option Text}
    (read : readAttributes? s = some (attributes, rest)) :
    ∃ group : Option Text, (∀ raw ∈ group, Encloses raw) ∧ s = spellGroup group ++ rest := by
  unfold readAttributes? at read
  split at read
  · obtain ⟨⟨raw, after⟩, split, found⟩ := Option.map_eq_some_iff.1 read
    obtain ⟨encloses, rfl⟩ := splitGroup?_eq_some_iff.1 split
    obtain ⟨-, rfl⟩ := Prod.mk.inj found
    refine ⟨some raw, ?_, by simp [spellGroup]⟩
    intro other same
    exact Option.some.inj same ▸ encloses
  · obtain ⟨-, rfl⟩ := Prod.mk.inj (Option.some.inj read)
    exact ⟨none, by simp, rfl⟩

theorem exists_declaration_of_read? {s : Text} {e : Element} {body : Body} (solid : Solid s)
    (read : read? s = some (e, body)) : ∃ d : Declaration, d.spelling = s := by
  unfold read? at read
  rcases tagRead : optional '%' s with ⟨tag, afterTag⟩
  rcases idRead : optional '#' afterTag with ⟨id, afterId⟩
  rcases classesRead : chain '.' afterId with ⟨classes, afterClasses⟩
  simp only [tagRead, idRead, classesRead] at read
  split at read
  next => cases read
  next declared =>
    obtain ⟨⟨attributes, rest⟩, attributesRead, bodyRead⟩ := Option.bind_eq_some_iff.1 read
    obtain ⟨body, tailRead, -⟩ := Option.bind_eq_some_iff.1 bodyRead
    obtain ⟨tagName, rfl⟩ := spellOptional_of_optional tagRead
    obtain ⟨idName, rfl⟩ := spellOptional_of_optional idRead
    obtain ⟨classNames, rfl⟩ := spellChain_of_chain classesRead
    obtain ⟨group, enclosed, rfl⟩ := exists_group_of_readAttributes? attributesRead
    have ending : Solid rest :=
      solid.of_append_right.of_append_right.of_append_right.of_append_right
    obtain ⟨tail, rfl⟩ := Body.exists_tail_of_read? ending tailRead
    have named : ¬(tag = none ∧ id = none ∧ classes = []) := by
      rintro ⟨rfl, rfl, rfl⟩
      exact declared rfl
    exact ⟨⟨tag, id, classes, group, tail, tagName, idName, classNames, enclosed, named⟩, rfl⟩

end Element

end IndentMarkup
