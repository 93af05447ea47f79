import IndentMarkup.Disk.Directory

/-! What operations leave on a disk. Making directories changes no file, writing changes
one file and no directory, and where paths lead does not change as long as directories
stay. So files written under different names in one directory never meet. -/
namespace IndentMarkup

theorem not_mem_of_mem_splitOn {mark : Char} {s part : Text} (member : part ∈ s.splitOn mark) :
    mark ∉ part := by
  induction s generalizing part with
  | nil =>
    rw [List.splitOn_nil, List.mem_singleton] at member
    rw [member]
    exact List.not_mem_nil
  | cons c s ih =>
    obtain ⟨first, parts, split⟩ := List.exists_cons_of_ne_nil (List.splitOn_ne_nil mark s)
    rw [List.splitOn_cons_eq_if_modifyHead] at member
    split at member
    next =>
      rcases List.mem_cons.1 member with rfl | member
      · exact List.not_mem_nil
      · exact ih member
    next other =>
      rw [split, List.modifyHead_cons] at member
      have firstPlain : mark ∉ first := ih (split ▸ List.mem_cons_self)
      rcases List.mem_cons.1 member with rfl | member
      · have differs : mark ≠ c := fun same => other (by simp [same])
        simp [differs, firstPlain]
      · exact ih (split ▸ List.mem_cons_of_mem first member)

namespace Path

theorem not_mem_of_mem_steps {spelling step : String} (member : step ∈ (ofString spelling).steps) :
    '/' ∉ step.toList := by
  obtain ⟨part, found, rfl⟩ := List.mem_map.1 member
  rw [String.toList_ofList]
  exact not_mem_of_mem_splitOn found

theorem ofString_of_plain {name : String} (plain : '/' ∉ name.toList) :
    ofString name = ⟨false, [name]⟩ := by
  have relative : name.toList.head? ≠ some '/' := fun first => plain (List.mem_of_head? first)
  rw [ofString, List.splitOn_eq_singleton plain, List.map_singleton, String.ofList_toList,
    decide_eq_false relative]

theorem ofString_of_slash {spelling name : String} (before : Text) (plain : '/' ∉ name.toList)
    (spelled : spelling.toList = before ++ '/' :: name.toList) :
    ofString spelling =
      ⟨(before ++ ['/']).head? = some '/', (before.splitOn '/').map String.ofList ++ [name]⟩ := by
  have start : (before ++ '/' :: name.toList).head? = (before ++ ['/']).head? := by
    cases before <;> rfl
  rw [ofString, spelled, start, List.splitOn_append_cons_self, List.splitOn_eq_singleton plain,
    List.map_append, List.map_singleton, String.ofList_toList]

theorem exists_ofString_inDirectory (directory : String) :
    ∃ absolute steps, ∀ name : String, '/' ∉ name.toList →
      ofString (inDirectory directory name) = ⟨absolute, steps ++ [name]⟩ := by
  by_cases empty : directory = ""
  · refine ⟨false, [], fun name plain => ?_⟩
    have same : inDirectory directory name = name := by simp [inDirectory, empty]
    rw [same]
    exact ofString_of_plain plain
  · by_cases slash : directory.toList.getLast? = some '/'
    · obtain ⟨before, spelled⟩ := List.getLast?_eq_some_iff.1 slash
      refine ⟨_, _, fun name plain => ofString_of_slash before plain ?_⟩
      simp [inDirectory, spelled]
    · refine ⟨_, _, fun name plain => ofString_of_slash directory.toList plain ?_⟩
      simp [inDirectory, empty, slash]

end Path

/-- A name that leads to the entry of that name, from any directory. -/
structure IsFileName (name : String) : Prop where
  plain : '/' ∉ name.toList
  given : name ≠ ""
  notHere : name ≠ "."
  notUp : name ≠ ".."

namespace Disk

def fileAt? (disk : Disk) (place : Location) : Option ByteArray :=
  match disk.node? place with
  | some (.file content) => some content
  | _ => none

theorem lookup_filter_of_ne {place other : Location} (apart : other ≠ place)
    (nodes : List (Location × Node)) :
    (nodes.filter (·.1 ≠ place)).lookup other = nodes.lookup other := by
  induction nodes with
  | nil => rfl
  | cons entry nodes ih =>
    obtain ⟨here, node⟩ := entry
    by_cases same : here = place
    · have differs : (other == here) = false := by simp [same, apart]
      rw [List.filter_cons_of_neg (by simp [same]), ih, List.lookup_cons, differs]
    · rw [List.filter_cons_of_pos (by simp [same]), List.lookup_cons, List.lookup_cons, ih]

theorem node?_put_of_ne (disk : Disk) {place other : Location} (apart : other ≠ place)
    (node : Node) : (disk.put place node).node? other = disk.node? other := by
  have differs : (other == place) = false := by simp [apart]
  simp only [node?, put, List.lookup_cons, differs, lookup_filter_of_ne apart]

theorem isDirectoryAt_iff {disk : Disk} {place : Location} :
    disk.isDirectoryAt place = true ↔ disk.node? place = some .directory := by
  unfold isDirectoryAt
  split <;> simp_all

theorem ne_nil_of_free {disk : Disk} {place : Location}
    (free : disk.isDirectoryAt place = false) : place ≠ [] := by
  rintro rfl
  cases free

theorem fileAt?_put {disk : Disk} {place : Location} (free : disk.isDirectoryAt place = false)
    (content : ByteArray) : (disk.put place (.file content)).fileAt? place = some content := by
  rw [fileAt?, node?_put disk (ne_nil_of_free free)]

theorem fileAt?_put_of_ne (disk : Disk) {place other : Location} (apart : other ≠ place)
    (node : Node) : (disk.put place node).fileAt? other = disk.fileAt? other := by
  rw [fileAt?, node?_put_of_ne disk apart, fileAt?]

def IsSpelling (spelling : String) : Prop :=
  '\x00' ∉ spelling.toList ∧ spelling ≠ "" ∧ spelling.utf8ByteSize ≤ pathLimit

theorem locate_eq_ok_iff {disk : Disk} {spelling : String} {place : Location} :
    disk.locate spelling = .ok place ↔
      IsSpelling spelling ∧ disk.follow (Path.ofString spelling) = .ok place := by
  rw [locate, IsSpelling]
  split
  · next nul => simp_all
  · split
    · next empty => simp_all
    · split
      · next long =>
        have short : ¬ spelling.utf8ByteSize ≤ pathLimit := Nat.not_le.2 long
        simp [short]
      · simp_all

theorem step_eq_append {disk : Disk} {place next : Location} {name : String}
    (proper : IsFileName name) (taken : disk.step place name = .ok next) :
    next = place ++ [name] := by
  unfold step at taken
  split at taken
  · cases taken
  · cases taken
  · have notStill : ¬ (decide (name = "") || decide (name = ".")) = true := by
      simp [proper.given, proper.notHere]
    rw [if_neg notStill, if_neg proper.notUp] at taken
    split at taken
    · cases taken
    · exact (Except.ok.inj taken).symm

theorem exists_parent {disk : Disk} {absolute : Bool} {steps : List String} {name : String}
    {place : Location} (proper : IsFileName name)
    (led : disk.follow ⟨absolute, steps ++ [name]⟩ = .ok place) :
    ∃ parent, disk.follow ⟨absolute, steps⟩ = .ok parent ∧ place = parent ++ [name] := by
  simp only [follow, List.foldlM_append] at led ⊢
  cases reached : steps.foldlM disk.step (if absolute then [] else disk.home) with
  | error failure => rw [reached] at led; cases led
  | ok parent =>
    rw [reached] at led
    change [name].foldlM disk.step parent = .ok place at led
    have taken : disk.step parent name = .ok place := by
      simpa only [List.foldlM_cons, List.foldlM_nil, bind_pure] using led
    exact ⟨parent, rfl, step_eq_append proper taken⟩

/-- Directories stay directories, and paths start where they did. -/
structure Keeps (before after : Disk) : Prop where
  home : after.home = before.home
  directories : ∀ place, before.node? place = some .directory →
    after.node? place = some .directory

namespace Keeps

theorem refl (disk : Disk) : disk.Keeps disk := ⟨rfl, fun _ => id⟩

theorem trans {before between after : Disk} (first : before.Keeps between)
    (second : between.Keeps after) : before.Keeps after :=
  ⟨second.home.trans first.home, fun place here =>
    second.directories place (first.directories place here)⟩

theorem put {disk : Disk} {place : Location} (free : disk.isDirectoryAt place = false)
    (node : Node) : disk.Keeps (disk.put place node) where
  home := rfl
  directories other here := by
    have apart : other ≠ place := by
      rintro rfl
      rw [isDirectoryAt_iff.2 here] at free
      cases free
    rw [node?_put_of_ne disk apart, here]

section
variable {before after : Disk} (keeps : before.Keeps after)
include keeps

theorem step {place next : Location} {name : String} (taken : before.step place name = .ok next) :
    after.step place name = .ok next := by
  unfold Disk.step at taken
  split at taken
  · cases taken
  · cases taken
  · next here =>
    rw [Disk.step, keeps.directories place here]
    exact taken

theorem foldlM_step {steps : List String} {place next : Location}
    (led : steps.foldlM before.step place = .ok next) :
    steps.foldlM after.step place = .ok next := by
  induction steps generalizing place with
  | nil => exact led
  | cons name steps ih =>
    rw [List.foldlM_cons] at led ⊢
    cases taken : before.step place name with
    | error failure => rw [taken] at led; cases led
    | ok between =>
      rw [taken] at led
      rw [keeps.step taken]
      exact ih led

theorem follow {path : Path} {place : Location} (led : before.follow path = .ok place) :
    after.follow path = .ok place := by
  rw [Disk.follow, keeps.home]
  exact keeps.foldlM_step led

theorem locate {spelling : String} {place : Location} (led : before.locate spelling = .ok place) :
    after.locate spelling = .ok place := by
  obtain ⟨spelled, led⟩ := locate_eq_ok_iff.1 led
  exact locate_eq_ok_iff.2 ⟨spelled, keeps.follow led⟩

end

end Keeps

theorem place_ne_of_name_ne {before after : Disk} (keeps : before.Keeps after) {directory : String}
    {first second : String} (proper : IsFileName first) (proper' : IsFileName second)
    (apart : first ≠ second) {place place' : Location}
    (led : before.locate (inDirectory directory first) = .ok place)
    (led' : after.locate (inDirectory directory second) = .ok place') : place ≠ place' := by
  obtain ⟨absolute, steps, spelled⟩ := Path.exists_ofString_inDirectory directory
  have reached := (locate_eq_ok_iff.1 led).2
  have reached' := (locate_eq_ok_iff.1 led').2
  rw [spelled first proper.plain] at reached
  rw [spelled second proper'.plain] at reached'
  obtain ⟨parent, above, rfl⟩ := exists_parent proper reached
  obtain ⟨parent', above', rfl⟩ := exists_parent proper' reached'
  have same : parent = parent' := by
    rw [keeps.follow above] at above'
    exact Except.ok.inj above'
  rw [same]
  simpa using apart

theorem put_put (disk : Disk) (place : Location) (first second : Node) :
    (disk.put place first).put place second = disk.put place second := by
  simp [put]

theorem write_cases (disk : Disk) (target text : String) :
    (∃ cause, disk.write target text = (disk, some cause)) ∨
    ∃ place, disk.locate target = .ok place ∧ disk.isDirectoryAt place = false ∧
      (disk.write target text = (disk.put place (.file text.toUTF8), none) ∨
        ∃ size cause, size < text.toUTF8.size ∧ disk.write target text =
          (disk.put place (.file (text.toUTF8.extract 0 size)), some cause)) := by
  unfold write writeBytes reach
  split
  · next failure _ => exact .inl ⟨failure, rfl⟩
  · next place reached =>
    split
    · exact .inl ⟨.isDirectory, rfl⟩
    · next free =>
      have led : disk.locate target = .ok place := by
        split at reached
        · cases reached
        · exact reached
      refine .inr ⟨place, led, by simpa using free, ?_⟩
      unfold fill
      split
      · next size failure _ =>
        rw [put_put]
        exact .inr ⟨size, failure, size.isLt, rfl⟩
      · rw [put_put]
        exact .inl rfl

theorem exists_place_of_write {disk after : Disk} {target text : String}
    (wrote : disk.write target text = (after, none)) :
    ∃ place, disk.locate target = .ok place ∧ disk.isDirectoryAt place = false ∧
      after = disk.put place (.file text.toUTF8) := by
  obtain ⟨cause, failed⟩ | ⟨place, led, free, done | ⟨size, cause, -, failed⟩⟩ :=
    disk.write_cases target text
  · rw [failed] at wrote
    cases wrote
  · rw [done] at wrote
    exact ⟨place, led, free, (Prod.mk.inj wrote).1.symm⟩
  · rw [failed] at wrote
    cases wrote

/-- Directories may have been added; all that was there stays, and no file is new. -/
structure Furnishes (before after : Disk) : Prop extends before.Keeps after where
  files : ∀ place, after.fileAt? place = before.fileAt? place

namespace Furnishes

theorem refl (disk : Disk) : disk.Furnishes disk := ⟨.refl disk, fun _ => rfl⟩

theorem trans {before between after : Disk} (first : before.Furnishes between)
    (second : between.Furnishes after) : before.Furnishes after :=
  ⟨first.toKeeps.trans second.toKeeps, fun place =>
    (second.files place).trans (first.files place)⟩

end Furnishes

end Disk

end IndentMarkup
