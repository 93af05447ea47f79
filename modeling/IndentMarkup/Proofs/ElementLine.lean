import IndentMarkup.Line
import IndentMarkup.Proofs.Declaration
import IndentMarkup.Proofs.Origin

/-! Lines that declare elements. The content of a line is read as an element
exactly if it spells a declaration, which is then the only one it spells, and
every element with well-formed parts has a spelling that is read as it. -/
namespace IndentMarkup
open Text

namespace Statement

theorem read?_of_read_eq_element {s : Text} {e : Element} {body : Body}
    (read : Statement.read s = .element e body) : Element.read? s = some (e, body) := by
  have origin := origin_read s
  rw [read] at origin
  exact origin

theorem refuse_of_mark {c : Char} (mark : c = '%' ∨ c = '#' ∨ c = '.') (rest : Text) :
    readIgnored? (c :: rest) = none ∧ readDoctype? (c :: rest) = none ∧
      readComment? (c :: rest) = none := by
  rcases mark with rfl | rfl | rfl
  · exact ⟨rfl, rfl, rfl⟩
  · exact ⟨rfl, rfl, rfl⟩
  · exact ⟨rfl, rfl, rfl⟩

theorem read_spelling (d : Declaration) :
    Statement.read d.spelling = .element d.element d.tail.body := by
  have declared : readElement? d.spelling = some (.element d.element d.tail.body) := by
    rw [readElement?, d.read?_spelling]
    rfl
  obtain ⟨c, rest, spelled, mark⟩ := d.exists_mark
  obtain ⟨ignored, doctype, comment⟩ := refuse_of_mark mark rest
  rw [spelled] at declared ⊢
  simp only [Statement.read, rules, List.findSome?_cons, ignored, doctype, comment, declared,
    Option.getD_some]

end Statement

namespace Body

def Spellable : Body → Prop
  | nested => True
  | void => True
  | echo expression => expression ≠ [] ∧ Off isBlank expression ∧ Solid expression
  | text content => IsInline content ∧ Solid content

def spell : Body → Text
  | nested => []
  | void => ['/']
  | echo expression => '=' :: expression
  | text content => ' ' :: content

theorem solid_spell {body : Body} (spellable : body.Spellable) : Solid body.spell := by
  cases body with
  | nested => exact solid_nil
  | void => exact solid_of_forall (List.forall_mem_singleton.2 (by decide))
  | echo expression => exact spellable.2.2.cons spellable.1 '='
  | text content => exact spellable.2.cons spellable.1.given ' '

theorem exists_tail_spell {body : Body} (spellable : body.Spellable) :
    ∃ tail : Tail, tail.spelling = body.spell ∧ tail.body = body := by
  cases body with
  | nested => exact ⟨.nothing, rfl, rfl⟩
  | void => exact ⟨.slash ⟨[], by simp⟩, rfl, rfl⟩
  | echo expression =>
    obtain ⟨given, off, solid⟩ := spellable
    have trimmed : trim expression = expression := trim_eq off solid
    refine ⟨.code ⟨[], by simp⟩ expression (by rwa [trimmed]), rfl, ?_⟩
    rw [Tail.body, trimmed]
  | text content =>
    have blank : ∀ c ∈ [' '], isBlank c = true := List.forall_mem_singleton.2 (by decide)
    exact ⟨.inline ⟨[' '], blank⟩ content (List.cons_ne_nil _ _) spellable.1, rfl, rfl⟩

end Body

/-- The parts of the element can be written in a declaration that has the body. -/
structure Declarable (e : Element) (body : Body) : Prop where
  tag : IsName e.tag
  id : ∀ name ∈ e.id, IsName name
  classes : ∀ name ∈ e.classes, IsName name
  attributes : ∀ raw ∈ e.attributes, Encloses raw ∧ raw ≠ [] ∧ trim raw = raw
  body : body.Spellable

namespace Element

def spell (e : Element) (body : Body) : Text :=
  spellOptional '%' (some e.tag) ++ (spellOptional '#' e.id ++
    (spellChain '.' e.classes ++ (spellGroup e.attributes ++ body.spell)))

theorem solid_spellGroup (group : Option Text) : Solid (spellGroup group) := by
  cases group with
  | none => exact solid_nil
  | some raw =>
    have closed : Solid (('(' :: raw) ++ [')']) := solid_concat (by decide)
    exact closed

theorem trim_spell {e : Element} {body : Body} (declarable : Declarable e body) :
    trim (e.spell body) = e.spell body := by
  have tag : ∀ name ∈ some e.tag, IsName name := fun _ same => Option.some.inj same ▸ declarable.tag
  apply trim_eq
  · exact off_cons.2 (by decide)
  · exact (solid_spellOptional tag).append ((solid_spellOptional declarable.id).append
      ((solid_spellChain declarable.classes).append
        ((solid_spellGroup e.attributes).append (Body.solid_spell declarable.body))))

theorem exists_declaration_spell {e : Element} {body : Body} (declarable : Declarable e body) :
    ∃ d : Declaration, d.spelling = e.spell body ∧ d.element = e ∧ d.tail.body = body := by
  obtain ⟨tail, spelled, read⟩ := Body.exists_tail_spell declarable.body
  have attributes : (e.attributes.bind fun raw =>
      if trim raw = [] then none else some (trim raw)) = e.attributes := by
    cases given : e.attributes with
    | none => rfl
    | some raw =>
      obtain ⟨-, filled, trimmed⟩ := declarable.attributes raw given
      simpa [trimmed] using filled
  refine ⟨⟨some e.tag, e.id, e.classes, e.attributes, tail,
    fun _ same => Option.some.inj same ▸ declarable.tag, declarable.id, declarable.classes,
    fun raw given => (declarable.attributes raw given).1, by simp⟩, ?_, ?_, read⟩
  · rw [spell, ← spelled]
    rfl
  · rw [Declaration.element, attributes]
    rfl

end Element

def Element.wholeTag (e : Element) : Text :=
  let id := match e.id with
    | none => []
    | some id => " id='".toList ++ id ++ "'".toList
  let classes := match e.classes with
    | [] => []
    | classes => " class='".toList ++ " ".toList.intercalate classes ++ "'".toList
  let attributes := match e.attributes with
    | none => []
    | some attributes => " ".toList ++ attributes
  '<' :: (e.tag ++ id ++ classes ++ attributes ++ " />".toList)

theorem Element.startTag_true (e : Element) : e.startTag true = e.wholeTag := by
  obtain ⟨tag, id, classes, attributes⟩ := e
  cases id <;> cases classes <;> cases attributes <;> rfl

theorem echoRegion_eq (expression : Text) :
    echoRegion expression = "<?php echo(".toList ++ expression ++ "); ?>".toList := by
  have regrouped (a b c d : Text) :
      a ++ (b ++ expression ++ c) ++ d = (a ++ b) ++ expression ++ (c ++ d) := by
    simp only [List.append_assoc]
  have front : "<?php ".toList ++ "echo(".toList = "<?php echo(".toList := rfl
  have back : ");".toList ++ " ?>".toList = "); ?>".toList := rfl
  exact (regrouped _ _ _ _).trans (congr (congrArg (· ++ expression ++ ·) front) back)

/-- The inline piece that a tail stands for behind the declaration of `e`. -/
def Tail.inline? (e : Element) : Tail → Option Text
  | nothing => none
  | slash _ => some e.wholeTag
  | code _ expression _ => some ("<?php echo(".toList ++ trim expression ++ "); ?>".toList)
  | inline _ content _ _ => some content

theorem inline?_element (e : Element) (tail : Tail) :
    (Statement.element e tail.body).inline? = tail.inline? e := by
  cases tail with
  | nothing => rfl
  | slash gap => exact congrArg some e.startTag_true
  | code gap expression given => exact congrArg some (echoRegion_eq (trim expression))
  | inline gap content apart valid => rfl

/-- A line is read as an element if and only if its content spells a declaration.
The declaration is unique and says what the element is, and whatever can be
declared is read back from its spelling. -/
theorem statement_eq_element_iff_declared (number : Nat) (raw : Text) :
    ((∃ e body, (Line.read number raw).statement = .element e body) ↔
      ∃ d : Declaration, d.spelling = trim raw) ∧
    (∀ d d' : Declaration, d.spelling = trim raw → d'.spelling = trim raw → d = d') ∧
    (∀ d : Declaration, d.spelling = trim raw →
      (Line.read number raw).statement = .element d.element d.tail.body ∧
      (d.tail.body = .void ↔ ∃ gap, d.tail = .slash gap) ∧
      (Line.read number raw).statement.inline? = d.tail.inline? d.element) ∧
    (∀ e body, Declarable e body →
      (Line.read number (e.spell body)).statement = .element e body) := by
  have declared : ∀ (raw : Text) (d : Declaration), d.spelling = trim raw →
      (Line.read number raw).statement = .element d.element d.tail.body := by
    intro raw d spelled
    change Statement.read (trim raw) = _
    rw [← spelled, Statement.read_spelling]
  refine ⟨⟨?_, ?_⟩, ?_, ?_, ?_⟩
  · rintro ⟨e, body, read⟩
    exact Element.exists_declaration_of_read? (solid_trim raw)
      (Statement.read?_of_read_eq_element read)
  · rintro ⟨d, spelled⟩
    exact ⟨_, _, declared raw d spelled⟩
  · intro d d' spelled spelled'
    exact Declaration.spelling_injective (spelled.trans spelled'.symm)
  · intro d spelled
    refine ⟨declared raw d spelled, ?_, ?_⟩
    · cases d.tail <;> simp [Tail.body]
    · rw [declared raw d spelled, inline?_element]
  · intro e body declarable
    obtain ⟨d, spelled, rfl, rfl⟩ := Element.exists_declaration_spell declarable
    apply declared
    rw [spelled, Element.trim_spell declarable]

theorem statement_eq_element_iff_declared_link :
    (∃ d : Declaration,
      d.spelling = trim "  %a#home.nav( href='/(' ) Home ".toList ∧
      (Line.read 1 "  %a#home.nav( href='/(' ) Home ".toList).statement =
        .element d.element d.tail.body ∧
      d.element = ⟨"a".toList, some "home".toList, ["nav".toList], some "href='/('".toList⟩ ∧
      d.tail.body = .text "Home".toList ∧
      (Line.read 1 (d.element.spell d.tail.body)).statement =
        .element d.element d.tail.body) ∧
    (Line.read 2 "#main = $x".toList).statement =
      .element ⟨"div".toList, some "main".toList, [], none⟩ (.echo "$x".toList) ∧
    (Line.read 2 "#main = $x".toList).statement.inline? = some "<?php echo($x); ?>".toList ∧
    (Line.read 3 ".a.b( )/".toList).statement =
      .element ⟨"div".toList, none, ["a".toList, "b".toList], none⟩ .void ∧
    (Line.read 3 ".a.b( )/".toList).statement.inline? = some "<div class='a b' />".toList := by
  let link : Declaration :=
    { tag := some "a".toList
      id := some "home".toList
      classes := ["nav".toList]
      group := some " href='/(' ".toList
      tail := .inline ⟨[' '], List.forall_mem_singleton.2 (by decide)⟩ "Home".toList (by decide)
        ⟨by decide, by decide, by decide, by decide⟩
      tagName := by decide
      idName := by decide
      classNames := by decide
      enclosed := by decide
      named := by decide }
  let main : Declaration :=
    { tag := none
      id := some "main".toList
      classes := []
      group := none
      tail := .code ⟨[' '], List.forall_mem_singleton.2 (by decide)⟩ " $x".toList (by decide)
      tagName := by decide
      idName := by decide
      classNames := by decide
      enclosed := by decide
      named := by decide }
  let void : Declaration :=
    { tag := none
      id := none
      classes := ["a".toList, "b".toList]
      group := some " ".toList
      tail := .slash ⟨[], List.forall_mem_nil _⟩
      tagName := by decide
      idName := by decide
      classNames := by decide
      enclosed := by decide
      named := by decide }
  have spelled : link.spelling = trim "  %a#home.nav( href='/(' ) Home ".toList := by
    decide +kernel
  have parts : link.element =
      ⟨"a".toList, some "home".toList, ["nav".toList], some "href='/('".toList⟩ := by
    decide +kernel
  have ending : Solid ("Hom".toList ++ ['e']) := solid_concat (by decide)
  have declarable : Declarable link.element link.tail.body := by
    rw [parts]
    exact ⟨by decide, by decide, by decide, by decide,
      ⟨by decide, by decide, by decide, by decide⟩, ending⟩
  obtain ⟨-, -, declared, canonical⟩ :=
    statement_eq_element_iff_declared 1 "  %a#home.nav( href='/(' ) Home ".toList
  obtain ⟨echoes, -, echoed⟩ :=
    (statement_eq_element_iff_declared 2 "#main = $x".toList).2.2.1 main (by decide +kernel)
  obtain ⟨closes, -, closed⟩ :=
    (statement_eq_element_iff_declared 3 ".a.b( )/".toList).2.2.1 void (by decide +kernel)
  exact ⟨⟨link, spelled, (declared link spelled).1, parts, rfl, canonical _ _ declarable⟩,
    echoes.trans (by decide +kernel), echoed.trans (by decide +kernel),
    closes.trans (by decide +kernel), closed.trans (by decide +kernel)⟩

end IndentMarkup
