import Advisor.Proofs.Json.Depth
import Advisor.Proofs.Json.Members
import Advisor.Proofs.Partition.LastWins
import Advisor.Proofs.Render.Recursion
import Advisor.Proofs.Wire.Direct
import Advisor.Proofs.Wire.Script
import Advisor.Translation

/-!
# Scripts that are read do not nest without bound

A node is read from an object, and the nodes inside it from values inside the object. So a path down
from a declaration goes through containers that stand inside each other, and these nest no deeper
than a text may. Members that nothing reads may nest deeper, but no node comes from them.
-/

namespace Advisor

namespace Wire

private theorem exists_mem_of_forall₂ {α β : Type} {R : α → β → Prop} {as : List α} {bs : List β}
    {b : β} (h : List.Forall₂ R as bs) (hb : b ∈ bs) : ∃ a ∈ as, R a b := by
  induction h with
  | nil => simp at hb
  | cons hhead _ ih =>
    rcases List.mem_cons.mp hb with rfl | hb
    · exact ⟨_, List.mem_cons_self, hhead⟩
    · obtain ⟨a, ha, hab⟩ := ih hb
      exact ⟨a, List.mem_cons_of_mem _ ha, hab⟩

section Fields

variable {α : Type} {o : Object} {names : List String} {shape : Json.Value → Prop} {node : Node}
  {n : Nat} (hdepth : (Json.Value.object o).depth ≤ n + 1)

include hdepth

private theorem depth_le_of_gives {v : Json.Value} (h : Gives o names v) : v.depth ≤ n := by
  obtain ⟨name, -, hv, -⟩ := h
  have hlt := Json.Value.depth_lt_object (Json.mem_of_latest hv)
  omega

private theorem within_required (h : Required o names shape)
    (hshape : ∀ v, shape v → node.Within v.depth) : node.Within n := by
  obtain ⟨v, hv, hvalue⟩ := h
  exact (hshape v hvalue).mono (depth_le_of_gives hdepth hv)

private theorem within_optional {shape : α → Json.Value → Prop} {node : α → Node} {part : Option α}
    (h : Optional o names shape part)
    (hshape : ∀ a ∈ part, ∀ v, shape a v → (node a).Within v.depth) :
    ∀ a ∈ part, (node a).Within n := by
  rintro a rfl
  exact within_required hdepth h (hshape a rfl)

private theorem within_sequence {node : α → Node} {written : Json.Value → α → Prop} {as : List α}
    (h : Required o names fun v => ∃ items, v = .array items ∧ List.Forall₂ written items as)
    (hwritten : ∀ a ∈ as, ∀ v, written v a → (node a).Within v.depth) :
    ∀ a ∈ as, (node a).Within n := by
  intro a ha
  obtain ⟨v, hv, items, rfl, hitems⟩ := h
  obtain ⟨item, hitem, hvalue⟩ := exists_mem_of_forall₂ hitems ha
  have hlt := Json.Value.depth_lt_array hitem
  have hle := depth_le_of_gives hdepth hv
  exact (hwritten a ha item hvalue).mono (by omega)

end Fields

/-- A node comes from an object, and the nodes directly inside it come from what the object holds. -/
theorem IsNode.within {tag : String} {fields : Object → Prop} {v : Json.Value} {node : Node}
    (h : IsNode tag fields v) (hchildren : ∀ o n, (Json.Value.object o).depth ≤ n + 1 → fields o →
      ∀ child ∈ node.children, child.Within n) : node.Within v.depth := by
  obtain ⟨o, rfl, -, hfields⟩ := h
  exact Node.within_succ_iff.mpr (hchildren o _ Nat.le.refl hfields)

end Wire

open Wire

/-- An expression has no longer path than the value nests that it is written as. -/
theorem Expression.within_of_written {e : Expression} {v : Json.Value} (h : e.Written v) :
    (Node.expression e).Within v.depth := by
  induction e generalizing v with
  | number | text | boolean | identifier | unsupported =>
    exact IsNode.within h fun o n _ _ => by simp [Node.children, operands]
  | binary operator left right ihl ihr | assignment operator left right ihl ihr =>
    refine IsNode.within h fun o n hdepth hfields => ?_
    obtain ⟨_, hleft, hright⟩ := hfields
    simp only [Node.children, operands, List.forall_mem_map, List.forall_mem_cons]
    exact ⟨within_required hdepth hleft fun _ => ihl, within_required hdepth hright fun _ => ihr,
      by simp⟩
  | unary operator leading operand ih =>
    refine IsNode.within h fun o n hdepth hfields => ?_
    obtain ⟨_, hoperand, _⟩ := hfields
    simp only [Node.children, operands, List.forall_mem_map, List.forall_mem_cons]
    exact ⟨within_required hdepth hoperand fun _ => ih, by simp⟩
  | conditional condition consequent alternate ihc ihl ihr =>
    refine IsNode.within h fun o n hdepth hfields => ?_
    obtain ⟨hcondition, hconsequent, halternate⟩ := hfields
    simp only [Node.children, operands, List.forall_mem_map, List.forall_mem_cons]
    exact ⟨within_required hdepth hcondition fun _ => ihc,
      within_required hdepth hconsequent fun _ => ihl,
      within_required hdepth halternate fun _ => ihr, by simp⟩
  | call callee arguments ih =>
    refine IsNode.within h fun o n hdepth hfields => ?_
    obtain ⟨_, harguments⟩ := hfields
    simp only [Node.children, operands, List.forall_mem_map, allWritten_iff] at harguments ⊢
    rcases harguments with harguments | ⟨-, rfl⟩
    · exact within_sequence hdepth harguments fun e he v => ih e he
    · simp
  | element array index iha ihi =>
    refine IsNode.within h fun o n hdepth hfields => ?_
    obtain ⟨harray, hindex⟩ := hfields
    simp only [Node.children, operands, List.forall_mem_map, List.forall_mem_cons]
    exact ⟨within_required hdepth harray fun _ => iha, within_required hdepth hindex fun _ => ihi,
      by simp⟩

private theorem Variable.within_of_fields {x : Variable} {o : Object} {n : Nat}
    (hdepth : (Json.Value.object o).depth ≤ n + 1) (h : x.Fields o) :
    ∀ e ∈ x.initial, (Node.expression e).Within n :=
  within_optional hdepth h.2.2.1 fun _ _ _ => Expression.within_of_written

private theorem Statement.within_of_written {s : Statement} {v : Json.Value} (h : s.Written v) :
    (Node.statement s).Within v.depth := by
  have hexpression (e : Expression) (v : Json.Value) (h : e.Written v) :
      (Node.expression e).Within v.depth := Expression.within_of_written h
  induction s generalizing v with
  | block body ih =>
    refine IsNode.within h fun o n hdepth hbody => ?_
    simp only [allWritten_iff] at hbody
    simp only [Node.children, expressions, inner, List.map_nil, List.nil_append,
      List.forall_mem_map]
    exact within_sequence hdepth hbody fun s hs v => ih s hs
  | branch condition consequent alternate ihc iha =>
    rw [written_branch] at h
    refine IsNode.within h fun o n hdepth hfields => ?_
    obtain ⟨hcondition, hconsequent, halternate⟩ := hfields
    simp only [Node.children, expressions, inner, List.forall_mem_append, List.forall_mem_map,
      List.forall_mem_cons, Option.mem_toList]
    exact ⟨⟨within_required hdepth hcondition (hexpression condition), by simp⟩,
      within_required hdepth hconsequent fun _ => ihc,
      within_optional hdepth halternate fun s hs _ => iha s hs⟩
  | forLoop init condition update body ih =>
    refine IsNode.within h fun o n hdepth hfields => ?_
    obtain ⟨hinit, hcondition, hupdate, hbody⟩ := hfields
    simp only [Node.children, expressions, inner, List.forall_mem_append, List.forall_mem_map,
      List.forall_mem_cons, Option.mem_toList]
    exact ⟨⟨⟨within_optional hdepth hinit fun e _ => hexpression e,
        within_optional hdepth hcondition fun e _ => hexpression e⟩,
        within_optional hdepth hupdate fun e _ => hexpression e⟩,
      within_required hdepth hbody fun _ => ih, by simp⟩
  | whileLoop condition body ih =>
    refine IsNode.within h fun o n hdepth hfields => ?_
    obtain ⟨hcondition, hbody⟩ := hfields
    simp only [Node.children, expressions, inner, List.forall_mem_append, List.forall_mem_map,
      List.forall_mem_cons]
    exact ⟨⟨within_required hdepth hcondition (hexpression condition), by simp⟩,
      within_required hdepth hbody fun _ => ih, by simp⟩
  | returns value =>
    refine IsNode.within h fun o n hdepth hvalue => ?_
    simp only [Node.children, expressions, inner, List.map_nil, List.append_nil,
      List.forall_mem_map, Option.mem_toList]
    exact within_optional hdepth hvalue fun e _ => hexpression e
  | evaluate expression =>
    refine IsNode.within h fun o n hdepth hvalue => ?_
    simp only [Node.children, expressions, inner, List.map_nil, List.append_nil,
      List.forall_mem_map, List.forall_mem_cons]
    exact ⟨within_required hdepth hvalue (hexpression expression), by simp⟩
  | declare declared =>
    refine IsNode.within h fun o n hdepth hfields => ?_
    simp only [Node.children, expressions, inner, List.map_nil, List.append_nil,
      List.forall_mem_map, Option.mem_toList]
    exact Variable.within_of_fields hdepth hfields
  | breaks | continues | unsupported =>
    exact IsNode.within h fun o n _ _ => by simp [Node.children, expressions, inner]

private theorem Declaration.within_of_written {d : Declaration} {v : Json.Value} (h : d.Written v) :
    (Node.declaration d).Within v.depth := by
  rcases d with declared | declared | kind
  · refine IsNode.within h fun o n hdepth hfields => ?_
    simp only [Node.children, List.forall_mem_map, Option.mem_toList]
    exact Variable.within_of_fields hdepth hfields
  · refine IsNode.within h fun o n hdepth hfields => ?_
    obtain ⟨_, _, hbody, _⟩ := hfields
    simp only [Node.children, List.forall_mem_cons]
    exact ⟨within_required hdepth hbody fun _ => Statement.within_of_written, by simp⟩
  · exact IsNode.within h fun o n _ _ => by simp [Node.children]

namespace Wire

section Records

variable {δ α : Type} {record : Record δ α} {levels : Nat} {holds : δ → Prop}
  (hput : ∀ field document d e, record.put field (Excerpt.mk levels document) d = .ok e →
    holds d → holds e)

include hput

/-- What every reading of a field preserves is preserved by the reading of all members. -/
theorem Record.preserved_of_putMembers {members : List (Option String × Json.Document)} {d e : δ}
    (h : record.putMembers levels members d = .ok e) (hd : holds d) : holds e := by
  induction members generalizing d with
  | nil => exact Except.ok.inj h ▸ hd
  | cons member members ih =>
    obtain ⟨_ | name, document⟩ := member
    · simp [putMembers] at h
    rw [putMembers] at h
    split at h
    · obtain ⟨d', hd', hrest⟩ := bind_eq_ok.mp h
      exact ih hrest (hput _ _ _ _ hd' hd)
    · split at h
      · exact ih h hd
      · simp at h

private theorem Record.preserved_of_putItems {fields : List String} {items : List Json.Document}
    {d e : δ} (h : record.putItems levels fields items d = .ok e) (hd : holds d) : holds e := by
  induction items generalizing fields d with
  | nil =>
    cases fields <;> exact Except.ok.inj h ▸ hd
  | cons document items ih =>
    cases fields with
    | nil => simp [putItems] at h
    | cons field fields =>
      obtain ⟨d', hd', hrest⟩ := bind_eq_ok.mp h
      exact ih hrest (hput _ _ _ _ hd' hd)

/-- What a record is taken from in the end has what every reading of a field preserves, whether the
fields come from an object or from an array. -/
theorem Record.exists_draft_of_ofExcerpt (hblank : holds record.blank) {document : Json.Document}
    {a : α} (h : record.ofExcerpt ⟨levels + 1, document⟩ = .ok a) :
    ∃ d, holds d ∧ record.finish d = .ok a := by
  cases document with
  | object members closed =>
    obtain ⟨d, hmembers, hfinish⟩ := bind_eq_ok.mp h
    have hd := preserved_of_putMembers hput hmembers hblank
    cases closed with
    | false => simp at hfinish
    | true => exact ⟨d, hd, mapError_eq_ok.mp hfinish⟩
  | array items closed =>
    obtain ⟨d, hitems, hfinish⟩ := bind_eq_ok.mp h
    have hd := preserved_of_putItems hput hitems hblank
    cases closed with
    | false => simp at hfinish
    | true => exact ⟨d, hd, mapError_eq_ok.mp hfinish⟩
  | _ => simp [Record.ofExcerpt] at h

end Records

private theorem exists_item_of_listOf {α : Type} {read : Excerpt → Except Flaw α} {e : Excerpt}
    {as : List α} {a : α} (h : listOf read e = .ok as) (ha : a ∈ as) :
    ∃ item : Excerpt, item.levels + 1 = e.levels ∧ read item = .ok a := by
  obtain ⟨⟨items, complete⟩, hitems, hrest⟩ := bind_eq_ok.mp h
  obtain ⟨parts, hmap, hcomplete⟩ := bind_eq_ok.mp hrest
  obtain rfl : parts = as := by
    cases complete with
    | false => simp at hcomplete
    | true => exact pure_eq_ok.mp hcomplete
  obtain ⟨item, hitem, ha⟩ := exists_mem_of_forall₂ (mapM_eq_ok.mp hmap) ha
  refine ⟨item, ?_, ha⟩
  simp only [Source.items] at hitems
  split at hitems
  · next hlevels =>
    obtain ⟨rfl, -⟩ := Prod.mk.inj (Except.ok.inj hitems)
    obtain ⟨_, -, rfl⟩ := List.mem_map.mp hitem
    exact hlevels.symm
  · simp at hitems
  · simp at hitems

end Wire

namespace Script

/-- The declarations that have been read have no long paths. -/
def Draft.Shallow (d : Draft) : Prop :=
  ∀ ds ∈ d.declarations, ∀ x ∈ ds, (Node.declaration x).Within declarationLevels

private theorem within_of_listOf {document : Json.Document} {ds : List Declaration}
    (h : listOf (fun r => do Declaration.ofValue (← Source.value r))
      (Excerpt.mk (nesting - 1) document) = .ok ds) :
    ∀ x ∈ ds, (Node.declaration x).Within declarationLevels := by
  intro x hx
  obtain ⟨item, hlevels, hread⟩ := exists_item_of_listOf h hx
  obtain ⟨v, hvalue, hdeclared⟩ := bind_eq_ok.mp hread
  have hlevels : item.levels = declarationLevels := Nat.succ.inj hlevels
  have hdepth : v.depth ≤ declarationLevels :=
    hlevels ▸ Json.Document.depth_le_of_value? (value_eq_ok.mp hvalue)
  exact (Declaration.within_of_written (Declaration.ofValue_iff.mp hdeclared)).mono hdepth

private theorem shallow_of_put {field : String} {document : Json.Document} {d e : Draft}
    (h : record.put field (Excerpt.mk (nesting - 1) document) d = .ok e) (hd : d.Shallow) :
    e.Shallow := by
  simp only [record, Draft.put] at h
  split at h
  · obtain ⟨name, -, rfl⟩ := by simpa only [bind_eq_ok, pure_eq_ok] using h
    exact hd
  · obtain ⟨declarations, honce, rfl⟩ := by simpa only [bind_eq_ok, pure_eq_ok] using h
    obtain ⟨-, ds, hlist, rfl⟩ := once_eq_ok.mp honce
    intro ds' hds
    obtain rfl := Option.some.inj hds
    exact within_of_listOf hlist
  · exact Except.ok.inj h ▸ hd

private theorem within_of_ofExcerpt {document : Json.Document} {script : Script}
    (h : record.ofExcerpt ⟨nesting, document⟩ = .ok script) :
    ∀ x ∈ script.declarations, (Node.declaration x).Within declarationLevels := by
  have hblank : Draft.blank.Shallow := nofun
  obtain ⟨⟨name, declarations⟩, hd, hfinish⟩ := Record.exists_draft_of_ofExcerpt
    (fun _ _ _ _ => shallow_of_put) hblank h
  cases declarations with
  | none => simp [record, Draft.finish] at hfinish
  | some ds =>
    obtain rfl := pure_eq_ok.mp hfinish
    exact hd ds rfl

theorem below_lines {script : Script} {n : Nat}
    (h : ∀ x ∈ script.declarations, (Node.declaration x).Within (n + 2)) (settings : Settings)
    (now : String) : Line.Below (n + 3) (Translation.lines script settings now) := by
  have hzero {ls : List Line} (hls : ∀ l ∈ ls, l.level = 0) (m : Nat) : Line.Below (m + 1) ls :=
    fun l hl => hls l hl ▸ Nat.succ_pos m
  have hheader : ∀ l ∈ Translation.header script settings now, l.level = 0 := by
    simp only [Translation.header]
    cases settings.includeTimestamp <;> simp
  have hassignments (scope : Scope) : ∀ l ∈ Translation.assignments scope, l.level = 0 := by
    simp [Translation.assignments, Translation.assignApi, Translation.assignInput,
      Translation.assignGlobal, or_imp, forall_and]
  have hconstructor (scope : Scope) : Line.Below (n + 3) (Translation.constructorLines scope) :=
    ((hzero (hassignments scope) n).braced .close _).deeper
  have hmethods : Line.Below (n + 3) ((Scope.ofScript script settings).functions.flatMap
      (Translation.methodLines (Scope.ofScript script settings))) := by
    refine List.forall_mem_flatMap.mpr fun f hf => List.forall_mem_cons.mpr ⟨Nat.succ_pos _, ?_⟩
    have hdeclared := (Partition.ofDeclarations_settled script.declarations).function_declared hf
    exact (Function.below_lines (h _ hdeclared)).deeper
  have hclass (scope : Scope) (text : String) :
      Line.Below (n + 3) (⟨0, text⟩ :: Translation.constructorLines scope) :=
    List.forall_mem_cons.mpr ⟨Nat.succ_pos _, hconstructor scope⟩
  apply Line.Below.append
  · exact ((hzero hheader _).append (hclass _ _)).append hmethods
  · exact hzero (by simp) _

/-- What is accepted as a script has no path of more than 125 nodes in any of its declarations. So no
initial value and no method takes more calls to render that are open at a time, and no line of the
program stands more than 125 levels deep. -/
theorem decode_shallow {s : String} {script : Script} (h : decode s = .ok script) :
    (∀ x ∈ script.declarations, ∀ path, Node.IsPath (.declaration x :: path) →
      (Node.declaration x :: path).length ≤ 125)
    ∧ (∀ v, Declaration.variable v ∈ script.declarations → ∀ c,
      v.renderInitialWithin c 124 = some (v.renderInitial c))
    ∧ (∀ f, Declaration.function f ∈ script.declarations → ∀ c,
      f.linesWithin c 125 = some (f.lines c))
    ∧ ∀ settings now, ∀ l ∈ Translation.lines script settings now, l.level ≤ 125 := by
  have hwithin : ∀ x ∈ script.declarations, (Node.declaration x).Within 125 := by
    rw [decode, mapError_eq_ok] at h
    exact within_of_ofExcerpt (ofText_eq_ok.mp h).1
  have hinitial (v : Variable) (hv : Declaration.variable v ∈ script.declarations) (c : Context) :
      v.renderInitialWithin c 124 = some (v.renderInitial c) := by
    have hchildren := Node.within_succ_iff.mp (hwithin _ hv)
    simp only [Node.children, List.forall_mem_map, Option.mem_toList] at hchildren
    apply Variable.renderInitialWithin_eq_some
    intro e he
    apply Expression.renderWithin_eq_some
    exact hchildren e he
  exact ⟨hwithin, hinitial, fun f hf c => Function.linesWithin_eq_some (hwithin _ hf),
    fun settings now l hl => Nat.le_of_lt_succ (below_lines hwithin settings now l hl)⟩

/-- A script with a note that could not be read, and with a loop in its function. -/
def notedLoopText : String :=
  "\x7b\"note\":[[1e999]],\"body\":[\x7b\"type\":\"FunctionDeclaration\",\"name\":\"f\",
    \"body\":\x7b\"type\":\"WhileStatement\",\"condition\":\x7b\"type\":\"Identifier\",\"name\":\"x\"\x7d,
    \"body\":\x7b\"type\":\"BreakStatement\"\x7d\x7d\x7d]\x7d"

def loopFunction : Function := ⟨"f", [], .whileLoop (.identifier "x") .breaks, none⟩

private theorem decode_notedLoopText :
    decode notedLoopText = .ok ⟨none, [.function loopFunction]⟩ := by
  have htokens : Json.Token.ofText notedLoopText = [.beginObject, .text "note", .colon,
      .beginArray, .beginArray, .number none, .endArray, .endArray, .comma, .text "body", .colon,
      .beginArray, .beginObject, .text "type", .colon, .text "FunctionDeclaration", .comma,
      .text "name", .colon, .text "f", .comma, .text "body", .colon, .beginObject, .text "type",
      .colon, .text "WhileStatement", .comma, .text "condition", .colon, .beginObject,
      .text "type", .colon, .text "Identifier", .comma, .text "name", .colon, .text "x",
      .endObject, .comma, .text "body", .colon, .beginObject, .text "type", .colon,
      .text "BreakStatement", .endObject, .endObject, .endObject, .endArray, .endObject] := by
    decide +kernel
  rw [decode, ofText, Wire.ofText, Json.Document.ofText, htokens]
  rfl

theorem notedLoopText_shallow : decode notedLoopText = .ok ⟨none, [.function loopFunction]⟩
    ∧ ∀ c, loopFunction.linesWithin c 125 = some (loopFunction.lines c) :=
  ⟨decode_notedLoopText,
    (decode_shallow decode_notedLoopText).2.2.1 loopFunction (List.mem_singleton.mpr rfl)⟩

end Script

end Advisor
