import DocForest.Build.Load
import DocForest.Describe.Notes

/-!
# The section of every declaration

## What is here

* `Forest.sectionMarks` — the marks of siblings, each taken from the last mark in front of it.
* `Forest.checkMarks` — that the requirements of extensions with members are texts.
* `Forest.assignMarks` — the forest in which every member has the mark of its section.
-/

set_option autoImplicit false

namespace DocForest
namespace Forest

/-- The siblings that are no marks, each with the mark of its section.  Only marks that open a
section count. -/
def sectionMarks (forest : Forest) : SectionMark → List Nat → List (Nat × SectionMark)
  | _, [] => []
  | current, i :: rest =>
    match forest.decl? i with
    | none => forest.sectionMarks current rest
    | some decl =>
      if decl.kind.isMark then
        let next := if decl.isTask then SectionMark.ofComment decl.nameText else current
        forest.sectionMarks next rest
      else (i, current) :: forest.sectionMarks current rest

/-- The members of a node with their marks. -/
def memberMarks (forest : Forest) (i : Nat) : List (Nat × SectionMark) :=
  forest.sectionMarks ((forest.decl? i).elim {} (·.markForMembers)) (forest.codeChildren i)

/-- The forest with the marks of some declarations replaced. -/
def putMarks (forest : Forest) (marks : List (Nat × SectionMark)) : Forest :=
  marks.foldl (fun forest entry => forest.modifyDecl entry.1 fun decl =>
    { decl with mark := entry.2 }) forest

/-- The requirements of every extension that has members have to be a text. -/
def checkMarks (forest : Forest) : Except Failure Unit :=
  (List.range forest.size).forM fun i =>
    match forest.decl? i with
    | some decl => if (forest.codeChildren i).isEmpty then .ok () else decl.checkRequirements
    | none => .ok ()

/-- The forest in which every member has the mark of its section. -/
def assignMarks (forest : Forest) : Forest :=
  forest.putMarks ((List.range forest.size).flatMap forest.memberMarks)

end Forest
end DocForest
