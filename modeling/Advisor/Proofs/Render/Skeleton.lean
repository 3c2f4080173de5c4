import Advisor.Proofs.Script.Nodes
import Advisor.Render.Statement
import Mathlib.Data.List.Basic

/-!
# The control skeleton of a statement

What is left of a statement if blocks are spliced into the blocks around them, every body is one
block, and expressions are given by their texts. The lines of a statement are those of its skeleton.
-/

namespace Advisor

/-- A statement that is no block, with bodies that are lists of such. -/
inductive Skeleton where
  /-- A branch with the bodies that stand in braces. -/
  | branch (condition : String) (consequent : List Skeleton) (alternate : Option (List Skeleton))
  /-- A branch with another branch as its alternate, which is not in braces. -/
  | chain (condition : String) (consequent : List Skeleton) (alternate : Skeleton)
  | forLoop (init condition update : Option String) (body : List Skeleton)
  | whileLoop (condition : String) (body : List Skeleton)
  | returns (value : Option String)
  | breaks
  | continues
  | evaluate (text : String)
  | declare (name initial : String)
  | unsupported (kind : String)

namespace Skeleton

def isBranch : Skeleton → Bool
  | branch _ _ _ | chain _ _ _ => true
  | _ => false

/-- The first line. -/
def opening : Skeleton → Line
  | branch condition _ _ | chain condition _ _ => ⟨0, "if (" ++ condition ++ ") " ++ "\x7b"⟩
  | forLoop init condition update _ =>
    ⟨0, "for (" ++ init.getD "" ++ "; " ++ condition.getD "" ++ "; " ++ update.getD "" ++ ") "
      ++ "\x7b"⟩
  | whileLoop condition _ => ⟨0, "while (" ++ condition ++ ") " ++ "\x7b"⟩
  | returns (some value) => ⟨0, "return " ++ value ++ ";"⟩
  | returns none => ⟨0, "return;"⟩
  | breaks => ⟨0, "break;"⟩
  | continues => ⟨0, "continue;"⟩
  | evaluate text => ⟨0, text ++ ";"⟩
  | declare name initial => ⟨0, "let " ++ name ++ " = " ++ initial ++ ";"⟩
  | unsupported kind => ⟨0, "// Unsupported statement: " ++ kind⟩

mutual

/-- The lines behind the first. -/
def inner : Skeleton → List Line
  | branch _ consequent alternate => (linesAll consequent).map Line.deeper ++ ending alternate
  | chain _ consequent alternate =>
    (linesAll consequent).map Line.deeper
      ++ ⟨0, "\x7d else " ++ alternate.opening.text⟩ :: alternate.inner
  | forLoop _ _ _ body => (linesAll body).map Line.deeper ++ Line.close
  | whileLoop _ body => (linesAll body).map Line.deeper ++ Line.close
  | returns _ | breaks | continues | evaluate _ | declare _ _ | unsupported _ => []

/-- The lines from the brace that closes a consequent. -/
def ending : Option (List Skeleton) → List Line
  | none => Line.close
  | some alternate => Line.braced "\x7d else " (linesAll alternate) Line.close

def linesAll : List Skeleton → List Line
  | [] => []
  | s :: rest => s.opening :: (s.inner ++ linesAll rest)

end

def lines (s : Skeleton) : List Line := s.opening :: s.inner

theorem opening_eq (s : Skeleton) : s.opening = ⟨0, s.opening.text⟩ := by
  rcases s with _ | _ | _ | _ | (_ | _) | _ | _ | _ | _ | _ <;> rfl

private theorem lead_lines (s : Skeleton) (text : String) :
    Line.lead text s.lines = ⟨0, text ++ s.opening.text⟩ :: s.inner := by
  rw [lines, Line.lead, opening_eq]

end Skeleton

namespace Statement

variable {c : Context}

mutual

/-- The skeletons that the statement consists of once it is a block. -/
def skeleton (c : Context) : Statement → List Skeleton
  | block body => skeletonAll c body
  | branch condition consequent none =>
    [.branch (condition.render c) (consequent.skeleton c) none]
  | branch condition consequent (some alternate) =>
    if alternate.isBranch then
      (alternate.skeleton c).map (.chain (condition.render c) (consequent.skeleton c))
    else [.branch (condition.render c) (consequent.skeleton c) (some (alternate.skeleton c))]
  | forLoop init condition update body =>
    [.forLoop (init.map (·.render c)) (condition.map (·.render c)) (update.map (·.render c))
      (body.skeleton c)]
  | whileLoop condition body => [.whileLoop (condition.render c) (body.skeleton c)]
  | returns value => [.returns (value.map (·.render c))]
  | breaks => [.breaks]
  | continues => [.continues]
  | evaluate expression => [.evaluate (expression.render c)]
  | declare declared => [.declare declared.name (declared.renderInitial c)]
  | unsupported kind => [.unsupported kind]

def skeletonAll (c : Context) : List Statement → List Skeleton
  | [] => []
  | s :: rest => s.skeleton c ++ skeletonAll c rest

end

theorem skeletonAll_eq (body : List Statement) :
    skeletonAll c body = body.flatMap (skeleton c) := by
  induction body with
  | nil => rfl
  | cons s rest ih => rw [skeletonAll, ih, List.flatMap_cons]

theorem exists_skeleton_of_isBranch {s : Statement} (h : s.isBranch = true) :
    ∃ k : Skeleton, s.skeleton c = [k] ∧ k.isBranch = true := by
  induction s with
  | branch condition consequent alternate _ ih =>
    cases alternate with
    | none => exact ⟨_, rfl, rfl⟩
    | some alternate =>
      by_cases hbranch : alternate.isBranch = true
      · obtain ⟨k, hk, -⟩ := ih alternate rfl hbranch
        exact ⟨.chain (condition.render c) (consequent.skeleton c) k, by
          rw [skeleton, if_pos hbranch, hk, List.map_singleton], rfl⟩
      · exact ⟨_, by rw [skeleton, if_neg hbranch], rfl⟩
  | _ => exact absurd h Bool.false_ne_true

end Statement

namespace Skeleton

theorem linesAll_cons (s : Skeleton) (rest : List Skeleton) :
    linesAll (s :: rest) = s.lines ++ linesAll rest := rfl

theorem linesAll_eq (ks : List Skeleton) : linesAll ks = ks.flatMap lines := by
  induction ks with
  | nil => rfl
  | cons k ks ih => rw [linesAll_cons, ih, List.flatMap_cons]

private theorem linesAll_singleton (s : Skeleton) : linesAll [s] = s.lines := by
  rw [linesAll_cons, linesAll, List.append_nil]

private theorem clause_eq (c : Context) (clause : Option Expression) :
    Statement.clause c clause = (clause.map (·.render c)).getD "" := by
  cases clause <;> rfl

end Skeleton

theorem Statement.lines_eq_skeleton {c : Context} (s : Statement) :
    s.lines c = Skeleton.linesAll (s.skeleton c) := by
  induction s with
  | block body ih =>
    rw [lines, linesAll_eq, skeleton, skeletonAll_eq, Skeleton.linesAll_eq, List.flatMap_assoc]
    refine List.flatMap_congr fun s hs => ?_
    rw [ih s hs, Skeleton.linesAll_eq]
  | branch condition consequent alternate ihc iha =>
    cases alternate with
    | none =>
      rw [lines, ihc, skeleton, Skeleton.linesAll_singleton]
      rfl
    | some alternate =>
      have halternate := iha alternate rfl
      by_cases hbranch : alternate.isBranch = true
      · obtain ⟨k, hk, -⟩ := exists_skeleton_of_isBranch (c := c) hbranch
        rw [hk, Skeleton.linesAll_singleton] at halternate
        rw [lines, otherwise, if_pos hbranch, ihc, halternate, skeleton, if_pos hbranch, hk,
          List.map_singleton, Skeleton.linesAll_singleton, Skeleton.lead_lines]
        rfl
      · rw [lines, otherwise, if_neg hbranch, ihc, halternate, skeleton, if_neg hbranch,
          Skeleton.linesAll_singleton]
        rfl
  | forLoop init condition update body ih =>
    rw [lines, ih, skeleton, Skeleton.linesAll_singleton, Skeleton.clause_eq, Skeleton.clause_eq,
      Skeleton.clause_eq]
    rfl
  | whileLoop condition body ih =>
    rw [lines, ih, skeleton, Skeleton.linesAll_singleton]
    rfl
  | returns value => cases value <;> rfl
  | breaks | continues | evaluate | declare | unsupported => rfl

end Advisor
