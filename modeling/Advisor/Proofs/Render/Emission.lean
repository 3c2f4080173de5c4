import Advisor.Proofs.Render.Braces
import Advisor.Proofs.Render.Dependence
import Advisor.Proofs.Render.OneLine

/-!
# Statements written with a counter

A statement may be written from its first character to its last, with one counter for the depth that
goes up behind an opening brace and down in front of the closing one. That gives the text of the
statement and leaves the counter as it was, so what is written next stands where it belongs.
-/

namespace Advisor

/-- What is written while a counter holds the depth. -/
abbrev Emission := StateM Nat

namespace Emission

/-- The blanks at the depth. -/
def margin (c : Context) : Emission String := do
  return c.settings.indentation (← get)

/-- A line at the depth. -/
def line (c : Context) (text : String) : Emission String := do
  return (← margin c) ++ text

/-- Braces around what is written one level deeper. -/
def inBraces (c : Context) (body : Emission String) : Emission String := do
  modify (· + 1)
  let inner ← body
  modify (· - 1)
  return Render.braces (← margin c) inner

/-- A branch from its condition on, behind its margin. -/
def branch (c : Context) (condition : Expression) (consequent rest : Emission String) :
    Emission String := do
  let consequent ← inBraces c consequent
  let rest ← rest
  return "if (" ++ condition.render c ++ ") " ++ consequent ++ rest

variable {α β : Type} {action : Emission α} {value : Nat → α} {c : Context}

/-- What is written depends on the depth that the counter holds, and the counter holds it again
afterwards. -/
def Writes (action : Emission α) (value : Nat → α) : Prop :=
  ∀ depth, action.run depth = (value depth, depth)

theorem Writes.run_bind (h : Writes action value) (next : α → Emission β) (depth : Nat) :
    (action >>= next).run depth = (next (value depth)).run depth := by
  rw [StateT.run_bind, h depth]
  rfl

private theorem writes_margin : Writes (margin c) c.settings.indentation := fun _ => rfl

private theorem writes_line (text : String) :
    Writes (line c text) (fun depth => c.settings.indentation depth ++ text) := fun _ => rfl

theorem Writes.inBraces {body : Emission String} {text : Nat → String} (h : Writes body text) :
    Writes (inBraces c body)
      (fun depth => Render.braces (c.settings.indentation depth) (text (depth + 1))) := by
  intro depth
  have hbody : (Emission.inBraces c body).run depth = (do
      let inner ← body
      modify (· - 1)
      return Render.braces (← margin c) inner : Emission String).run (depth + 1) := rfl
  rw [hbody, h.run_bind]
  rfl

theorem Writes.branch {consequent rest : Emission String} {inner behind : Nat → String}
    (hconsequent : Writes consequent inner) (hrest : Writes rest behind) (condition : Expression) :
    Writes (branch c condition consequent rest) (fun depth => "if (" ++ condition.render c ++ ") "
      ++ Render.braces (c.settings.indentation depth) (inner (depth + 1)) ++ behind depth) := by
  intro depth
  rw [Emission.branch, hconsequent.inBraces.run_bind, hrest.run_bind]
  rfl

end Emission

namespace Statement

mutual

/-- The statement, written from the depth that the counter holds. -/
def emit (c : Context) : Statement → Emission String
  | block body => do
    let texts ← emitAll c body
    return Text.join "\n" (texts.filter (· ≠ ""))
  | branch condition consequent alternate => do
    let margin ← Emission.margin c
    let text ← Emission.branch c condition (consequent.emit c) (emitElse c alternate)
    return margin ++ text
  | forLoop init condition update body => do
    let margin ← Emission.margin c
    let body ← Emission.inBraces c (body.emit c)
    return margin ++ ("for (" ++ clause c init ++ "; " ++ clause c condition ++ "; "
      ++ clause c update ++ ") ") ++ body
  | whileLoop condition body => do
    let margin ← Emission.margin c
    let body ← Emission.inBraces c (body.emit c)
    return margin ++ ("while (" ++ condition.render c ++ ") ") ++ body
  | returns (some value) => Emission.line c ("return " ++ value.render c ++ ";")
  | returns none => Emission.line c "return;"
  | breaks => Emission.line c "break;"
  | continues => Emission.line c "continue;"
  | evaluate expression => Emission.line c (expression.render c ++ ";")
  | declare declared =>
    Emission.line c ("let " ++ declared.name ++ " = " ++ declared.renderInitial c ++ ";")
  | unsupported kind => Emission.line c ("// Unsupported statement: " ++ kind)

/-- A branch follows behind `else` without a margin of its own. -/
def emitElse (c : Context) : Option Statement → Emission String
  | none => return ""
  | some (branch condition consequent alternate) => do
    let text ← Emission.branch c condition (consequent.emit c) (emitElse c alternate)
    return " else " ++ text
  | some s => do
    let text ← Emission.inBraces c (s.emit c)
    return " else " ++ text

def emitAll (c : Context) : List Statement → Emission (List String)
  | [] => return []
  | s :: rest => do
    let text ← s.emit c
    let texts ← emitAll c rest
    return text :: texts

end

open Emission

variable {c : Context}

private theorem writes_emitAll {body : List Statement}
    (h : ∀ s ∈ body, Writes (s.emit c) (s.render c)) :
    Writes (emitAll c body) (fun depth => body.map (render c depth)) := by
  induction body with
  | nil => exact fun _ => rfl
  | cons s rest ih =>
    obtain ⟨hs, hrest⟩ := List.forall_mem_cons.mp h
    intro depth
    rw [emitAll, hs.run_bind, (ih hrest).run_bind]
    rfl

/-- The statement is written as its text, by itself and as an alternate. -/
structure Emits (c : Context) (s : Statement) : Prop where
  alone : Writes (s.emit c) (s.render c)
  alternate : Writes (emitElse c (some s)) (fun depth => elseText c depth (some s))

private theorem emits_of_not_branch {s : Statement} (hbranch : s.isBranch = false)
    (h : Writes (s.emit c) (s.render c)) : Emits c s := by
  refine ⟨h, fun depth => ?_⟩
  have hemit : emitElse c (some s) = (do
      let text ← Emission.inBraces c (s.emit c)
      return " else " ++ text) := by
    cases s with
    | branch => exact absurd hbranch (by simp [isBranch])
    | _ => rfl
  have htext : elseText c depth (some s) = " else " ++ s.inBraces c depth :=
    congrArg (" else " ++ ·) (alternateText_of_not_branch hbranch)
  rw [hemit, h.inBraces.run_bind]
  exact congrArg (·, depth) htext.symm

/-- Every statement is written as its text, by induction on the statement. What is said of alternates
is needed where a branch has one. -/
theorem emits (s : Statement) : Emits c s := by
  induction s with
  | block body ih =>
    refine emits_of_not_branch rfl fun depth => ?_
    rw [emit, (writes_emitAll fun s hs => (ih s hs).alone).run_bind]
    exact congrArg (·, depth) (render_block body).symm
  | branch condition consequent alternate ihc iha =>
    have hrest : Writes (emitElse c alternate) (fun depth => elseText c depth alternate) := by
      cases alternate with
      | none => exact fun _ => rfl
      | some alternate => exact (iha alternate rfl).alternate
    have htext : Writes (Emission.branch c condition (consequent.emit c) (emitElse c alternate))
        (fun depth => (branch condition consequent alternate).alternateText c depth) := by
      intro depth
      rw [ihc.alone.branch hrest condition depth]
      exact congrArg (·, depth) (alternateText_branch condition consequent alternate).symm
    refine ⟨fun depth => ?_, fun depth => ?_⟩
    · rw [emit, writes_margin.run_bind, htext.run_bind]
      exact congrArg (·, depth) (render_branch condition consequent alternate).symm
    · rw [emitElse, htext.run_bind]
      rfl
  | forLoop init condition update body ih =>
    refine emits_of_not_branch rfl fun depth => ?_
    rw [emit, writes_margin.run_bind, ih.alone.inBraces.run_bind]
    exact congrArg (·, depth) (render_forLoop init condition update body).symm
  | whileLoop condition body ih =>
    refine emits_of_not_branch rfl fun depth => ?_
    rw [emit, writes_margin.run_bind, ih.alone.inBraces.run_bind]
    exact congrArg (·, depth) (render_whileLoop condition body).symm
  | returns value => cases value <;> exact emits_of_not_branch rfl (writes_line _)
  | breaks | continues | evaluate | declare | unsupported =>
    exact emits_of_not_branch rfl (writes_line _)

/-- The counter is left as it was found, whatever has been written in between. -/
theorem run_emit (s : Statement) (depth : Nat) :
    (s.emit c).run depth = (s.render c depth, depth) := s.emits.alone depth

end Statement

/-- The context with levels of the width. -/
def Context.indented (c : Context) (indent : Nat) : Context :=
  { c with settings := { c.settings with indent := indent } }

private theorem Context.writeAlike_indented (c : Context) (indent : Nat) (e : Expression) :
    (c.indented indent).WriteAlike c e := by
  cases e <;> trivial

namespace Statement

/-- A statement whose names, operators and kinds have no line break is the same lines at every depth
and with every width of a level, each behind the blanks of its own level. Written with a counter it
is these lines too, and the counter is left as it was. -/
theorem written_shifted (c : Context) {s : Statement} (h : s.Unbroken) :
    ∃ ls : List Line, (∀ l ∈ ls, l.text ≠ "" ∧ OneLine l.text) ∧
      (∀ l ∈ ls.head?, l.level = 0) ∧ (∀ l ∈ ls.getLast?, l.level = 0) ∧
      ∀ depth indent,
        s.render (c.indented indent) depth = Text.join "\n" (ls.map fun l =>
          String.ofList (List.replicate (indent * (depth + l.level)) ' ') ++ l.text) ∧
        (s.emit (c.indented indent)).run depth = (s.render (c.indented indent) depth, depth) := by
  obtain ⟨hfilled, hfirst, hlast⟩ := (s.tidy_lines (c := c)).1
  refine ⟨s.lines c, fun l hl => ⟨hfilled l hl, unbroken_lines h l hl⟩, hfirst, hlast,
    fun depth indent => ⟨?_, s.run_emit depth⟩⟩
  have hlines : s.lines (c.indented indent) = s.lines c :=
    lines_congr fun e _ => c.writeAlike_indented indent e
  rw [render, hlines]
  rfl

/-- A branch with a loop and an empty block in its body and a branch as its alternate. The text that
is printed has a line break. -/
def noticeStatement : Statement :=
  .branch (.identifier "ready")
    (.block [.whileLoop (.identifier "waiting") (.evaluate (.call "Print" [.text "up\nor down"])),
      .block [], .breaks])
    (some (.branch (.identifier "late") (.block []) none))

theorem noticeStatement_shifted :
    noticeStatement.Unbroken ∧ ∃ ls : List Line, (∀ l ∈ ls, l.text ≠ "" ∧ OneLine l.text) ∧
      Text.join "\n" (ls.map fun l =>
          String.ofList (List.replicate (3 * (1 + l.level)) ' ') ++ l.text)
        = "   if (ready) \x7b\n      while (waiting) \x7b\n" ++
          "         this.api.print(\"up\\nor down\");\n      \x7d\n      break;\n" ++
          "   \x7d else if (late) \x7b\n   \x7d" := by
  have hunbroken : noticeStatement.Unbroken := by
    unfold Unbroken Expression.Unbroken
    decide +kernel
  obtain ⟨ls, hls, -, -, hshifted⟩ :=
    written_shifted ⟨⟨[], [], []⟩, Settings.standard⟩ hunbroken
  refine ⟨hunbroken, ls, hls, ?_⟩
  rw [← (hshifted 1 3).1]
  decide +kernel

/-- Branches with the given conditions and bodies, each the alternate of the one in front of it. The
last has the alternate that is given, if there is one. -/
def ladder : Expression × Statement → List (Expression × Statement) → Option Statement → Statement
  | (condition, body), [], last => branch condition body last
  | (condition, body), next :: rest, last => branch condition body (some (ladder next rest last))

/-- A branch up to the brace that closes its consequent. -/
def rung (c : Context) (depth : Nat) (r : Expression × Statement) : String :=
  "if (" ++ r.1.render c ++ ") " ++ r.2.inBraces c depth

/-- Each branch writes its own rung and leaves the rest to its alternate. -/
theorem alternateText_ladder (depth : Nat) (first : Expression × Statement)
    (rest : List (Expression × Statement)) {last : Option Statement}
    (h : ∀ s ∈ last, s.isBranch = false) : (ladder first rest last).alternateText c depth
      = Text.join " else " ((first :: rest).map (rung c depth)
        ++ last.toList.map (inBraces c depth)) := by
  induction rest generalizing first with
  | nil =>
    rw [ladder, alternateText_branch]
    cases last with
    | none => exact String.append_empty
    | some s =>
      have htext : s.alternateText c depth = s.inBraces c depth :=
        alternateText_of_not_branch (h s rfl)
      rw [elseText, htext, ← String.append_assoc]
      rfl
  | cons next rest ih =>
    rw [ladder, alternateText_branch, elseText, ih next, ← String.append_assoc]
    rfl

/-- Branches in the alternates of each other stand side by side: their bodies are rendered one level
deeper than the first of them, however many there are and whatever stands in the bodies. -/
theorem ladder_rendered_flat (c : Context) (depth : Nat) (first : Expression × Statement)
    (rest : List (Expression × Statement)) {last : Option Statement}
    (h : ∀ s ∈ last, s.isBranch = false) :
    (ladder first rest last).render c depth = c.settings.indentation depth
        ++ Text.join " else " ((first :: rest).map (rung c depth)
          ++ last.toList.map (inBraces c depth)) ∧
      ((ladder first rest last).emit c).run depth
        = ((ladder first rest last).render c depth, depth) := by
  have hmargin : (ladder first rest last).render c depth = c.settings.indentation depth
      ++ (ladder first rest last).alternateText c depth := by
    cases rest <;> exact render_branch _ _ _
  exact ⟨by rw [hmargin, alternateText_ladder depth first rest h], run_emit _ depth⟩

/-- A ladder of three rungs. A ladder of two stands on the first, and nothing on the second. -/
def signalLadder : Statement :=
  ladder
    (.identifier "up", ladder (.identifier "near", .breaks) [(.identifier "far", .continues)] none)
    [(.identifier "down", .block []), (.identifier "flat", .block [.returns none, .block []])]
    (some (.whileLoop (.identifier "waiting") .breaks))

theorem signalLadder_flat :
    (∀ s ∈ some (whileLoop (.identifier "waiting") .breaks), s.isBranch = false) ∧
    signalLadder.render ⟨⟨[], [], []⟩, Settings.standard⟩ 1
      = "  if (up) \x7b\n    if (near) \x7b\n      break;\n    \x7d else if (far) \x7b\n" ++
        "      continue;\n    \x7d\n  \x7d else if (down) \x7b\n  \x7d else if (flat) \x7b\n" ++
        "    return;\n  \x7d else \x7b\n    while (waiting) \x7b\n      break;\n" ++
        "    \x7d\n  \x7d" := by
  have hlast : ∀ s ∈ some (whileLoop (.identifier "waiting") .breaks), s.isBranch = false := by
    simp [isBranch]
  refine ⟨hlast, ?_⟩
  rw [signalLadder, (ladder_rendered_flat ⟨⟨[], [], []⟩, Settings.standard⟩ 1 _ _ hlast).1]
  decide +kernel

end Statement

end Advisor
