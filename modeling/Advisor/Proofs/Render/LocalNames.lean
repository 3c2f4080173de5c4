import Advisor.Proofs.Render.Hole
import Advisor.Translation

/-!
# Local names

Names are resolved against the script and the host alone. A parameter or a local variable is
therefore rendered as itself exactly if no global, no qualified input and no predefined constant has
its name; otherwise the text refers to that instead.
-/

namespace Advisor

namespace Text

theorem preceded_append (separator : String) (ss ts : List String) :
    preceded separator (ss ++ ts) = preceded separator ss ++ preceded separator ts := by
  induction ss with
  | nil => rw [List.nil_append, preceded, String.empty_append]
  | cons s ss ih => simp only [List.cons_append, preceded, ih, String.append_assoc]

theorem join_append_append (separator : String) {middle : List String} (h : middle ≠ [])
    (before after : List String) : join separator (before ++ middle ++ after)
      = followed separator before ++ join separator middle ++ preceded separator after := by
  obtain ⟨s, rest, rfl⟩ := List.exists_cons_of_ne_nil h
  rw [List.append_assoc, List.cons_append, join_append, join_cons, preceded_append]
  simp only [String.append_assoc]

end Text

theorem Line.printAll_deeper (s : Settings) (depth : Nat) (ls : List Line) :
    printAll s depth (ls.map deeper) = printAll s (depth + 1) ls := by
  rw [printAll, printAll, List.map_map]
  exact congrArg _ (List.map_congr_left (fun l _ => print_deeper s depth l))

theorem Translation.exists_program_eq (script : Script) (settings : Settings) (now : String)
    {f : Function} (h : f ∈ (Scope.ofScript script settings).functions) :
    ∃ before after, program script settings now
      = before ++ f.render (Scope.contextOf script settings) 1 ++ after := by
  obtain ⟨earlier, later, hfunctions⟩ := List.append_of_mem h
  obtain ⟨above, below, hlines⟩ : ∃ above below, lines script settings now
      = above ++ (f.lines (Scope.contextOf script settings)).map Line.deeper ++ below := by
    refine ⟨header script settings now
      ++ ⟨0, "class " ++ settings.className ++ " \x7b"⟩
        :: constructorLines (Scope.ofScript script settings)
      ++ earlier.flatMap (methodLines (Scope.ofScript script settings)) ++ [⟨0, ""⟩],
      later.flatMap (methodLines (Scope.ofScript script settings))
        ++ [⟨0, "\x7d"⟩, ⟨0, ""⟩, ⟨0, "module.exports = " ++ settings.className ++ ";"⟩], ?_⟩
    have hcontext : (Scope.ofScript script settings).context = Scope.contextOf script settings := rfl
    simp [lines, hfunctions, methodLines, hcontext]
  have hne : ((f.lines (Scope.contextOf script settings)).map Line.deeper).map
      (Line.print settings 0) ≠ [] := by
    simp [Function.lines, Line.braced]
  refine ⟨Text.followed "\n" (above.map (Line.print settings 0)),
    Text.preceded "\n" (below.map (Line.print settings 0)) ++ "\n", ?_⟩
  have hmethod : f.render (Scope.contextOf script settings) 1
      = Text.join "\n" (((f.lines (Scope.contextOf script settings)).map Line.deeper).map
        (Line.print settings 0)) :=
    (Line.printAll_deeper settings 0 _).symm
  rw [program, Line.printAll, hlines, List.map_append, List.map_append,
    Text.join_append_append _ hne, hmethod]
  simp only [String.append_assoc]

namespace Context

/-- Whether the name stands for something of the script or of the host. -/
def replaces (c : Context) (name : String) : Bool :=
  c.names.isGlobal name || (c.settings.qualifyInputs && c.names.isInput name)
    || (Host.constant? name).isSome

private theorem identifier_eq_iff (c : Context) (name : String) :
    c.identifier name = name ↔ c.replaces name = false := by
  have hmember : "this." ++ name ≠ name := by
    intro h
    have hlength := congrArg String.length h
    simp at hlength
  have hconstant : Host.constant? name ≠ some name := by
    have hall : ∀ entry ∈ Host.constants, entry.1 ≠ entry.2 := by simp [Host.constants]
    intro h
    obtain ⟨before, after, htable, -⟩ := List.lookup_eq_some_iff.mp h
    exact hall (name, name) (by simp [htable]) rfl
  rw [identifier, replaces]
  split
  · next hfixed => simp [hfixed, hmember]
  · next hfixed =>
    cases htarget : Host.constant? name with
    | none => simp [hfixed]
    | some target =>
      have hne : target ≠ name := by
        rintro rfl
        exact hconstant htarget
      simp [hne]

end Context

/-- The names that are local at a hole in the body of the function. -/
def Function.localNames (f : Function) (h : Hole) : List String :=
  f.parameters.map (·.name) ++ h.declared

/-- Where a local name stands in the body of a method, the program has the name itself exactly if
that stands for nothing of the script or of the host. The place in the text is the one that any
other expression would take. -/
theorem local_rendered_iff (script : Script) (settings : Settings) (now : String) {f : Function}
    (hf : f ∈ (Scope.ofScript script settings).functions) {h : Hole} {name : String}
    (hbody : f.body = h.fill (.identifier name)) :
    ∃ before pre post after : String,
      (∃ blank ∈ ["", " "], (Translation.ofScript script settings now).code
        = before ++ pre ++ blank ++ (Scope.contextOf script settings).identifier name
          ++ post ++ after) ∧
      (∀ e, ∃ blank ∈ ["", " "],
        Function.render (Scope.contextOf script settings) 1 { f with body := h.fill e }
          = pre ++ blank ++ e.render (Scope.contextOf script settings) ++ post) ∧
      (name ∈ f.localNames h → ((Scope.contextOf script settings).identifier name = name ↔
        (Scope.contextOf script settings).replaces name = false)) := by
  obtain ⟨before, after, hcode⟩ := Translation.exists_program_eq script settings now hf
  obtain ⟨pre, post, hplace⟩ := h.exists_render_method (Scope.contextOf script settings) f 1
  refine ⟨before, pre, post, after, ?_, hplace, fun _ => Context.identifier_eq_iff _ name⟩
  obtain ⟨blank, hblank, htext⟩ := hplace (.identifier name)
  refine ⟨blank, hblank, ?_⟩
  rw [← hbody, Expression.render] at htext
  have hprogram : (Translation.ofScript script settings now).code
      = before ++ f.render (Scope.contextOf script settings) 1 ++ after := hcode
  rw [hprogram, htext]
  simp only [String.append_assoc]

/-- A function that returns its parameter, which has the name of a predefined variable. -/
def bidFunction : Function := ⟨"f", [⟨"Bid", none⟩], .returns (some (.identifier "Bid")), none⟩

def bidScript : Script := ⟨none, [.function bidFunction]⟩

theorem bidParameter_rendered :
    "Bid" ∈ bidFunction.localNames ⟨[], .returned, []⟩ ∧
      ((Scope.contextOf bidScript Settings.standard).identifier "Bid" = "Bid" ↔
        (Scope.contextOf bidScript Settings.standard).replaces "Bid" = false) ∧
      ∃ before pre post after : String, ∃ blank ∈ ["", " "],
        (Translation.ofScript bidScript Settings.standard "").code
          = before ++ pre ++ blank ++ "this.api.getBid()" ++ post ++ after := by
  have hbody : bidFunction.body = (Hole.mk [] .returned []).fill (.identifier "Bid") := rfl
  have hlocal : "Bid" ∈ bidFunction.localNames ⟨[], .returned, []⟩ := List.mem_cons_self
  obtain ⟨before, pre, post, after, hcode, -, hbare⟩ :=
    local_rendered_iff bidScript Settings.standard "" (List.mem_singleton_self _) hbody
  exact ⟨hlocal, hbare hlocal, before, pre, post, after, hcode⟩

theorem not_local_rendered : ¬ ∀ (script : Script) (settings : Settings),
    ∀ f ∈ (Scope.ofScript script settings).functions, ∀ (h : Hole) (name : String),
      f.body = h.fill (.identifier name) → name ∈ f.localNames h →
        (Scope.contextOf script settings).identifier name = name := by
  intro hall
  have hbid := hall bidScript Settings.standard bidFunction (List.mem_singleton_self _)
    ⟨[], .returned, []⟩ "Bid" rfl List.mem_cons_self
  exact absurd hbid (by decide +kernel)

end Advisor
