import Advisor.Proofs.JavaScript.Fragment
import Advisor.Proofs.JavaScript.Grouping

/-!
# Expressions are read from their tokens

An expression that keeps its places, refers to nothing that the host has, and has no number with a
minus sign can be read back from its tokens. The reader goes through them once, with a stack of what
is open. It needs no precedence: signs in front of an operand are applied when something follows
that cannot belong to the operand, and assignments when they are closed.
-/

namespace Advisor

open JavaScript

/-- An expression with the text of each number in its place. -/
inductive Shape where
  | number (text : String)
  | text (value : String)
  | boolean (value : Bool)
  | identifier (name : String)
  | binary (operator : String) (left right : Shape)
  | unary (operator : String) (leading : Bool) (operand : Shape)
  | assignment (operator : String) (left right : Shape)
  | conditional (condition consequent alternate : Shape)
  | call (callee : String) (arguments : List Shape)
  | element (array index : Shape)
  | unsupported (kind : String)

namespace Expression

mutual

def shape : Expression → Shape
  | number value => .number (Render.number value)
  | text value => .text value
  | boolean value => .boolean value
  | identifier name => .identifier name
  | binary operator left right => .binary operator left.shape right.shape
  | unary operator leading operand => .unary operator leading operand.shape
  | assignment operator left right => .assignment operator left.shape right.shape
  | conditional condition consequent alternate =>
    .conditional condition.shape consequent.shape alternate.shape
  | call callee arguments => .call callee (shapes arguments)
  | element array index => .element array.shape index.shape
  | unsupported kind => .unsupported kind

def shapes : List Expression → List Shape
  | [] => []
  | e :: rest => e.shape :: shapes rest

end

def isUnary : Expression → Bool
  | unary _ _ _ => true
  | _ => false

/-- The words that the language itself reads as something else than a name. -/
def literalWords : List String := ["this", "true", "false"]

/-- Whether the node keeps its place without brackets of its own, and its text is that of its own
name or number. -/
def Plain (c : Context) (e : Expression) : Prop :=
  (∀ o ∈ e.tightOperands, o.isAssignment = false) ∧ match e with
    | number x => x.negative = false ∧ x.isFinite = true
    | identifier name =>
      name ∉ literalWords ∧ (Host.constant? name = none ∨ c.names.isGlobal name = true)
    | call callee _ => callee ∉ literalWords ∧ Host.function? callee = none
    | unary _ false operand => operand.isUnary = false
    | assignment _ left _ => left.isAssignment = false
    | element array _ => array.isUnary = false
    | _ => True

end Expression

namespace JavaScript

/-- What is open around the expression that is being read. -/
inductive Frame where
  | group
  | operand (operator : List Char) (left : Shape)
  | consequent (condition : Shape)
  | alternate (condition consequent : Shape)
  /-- The arguments that have been read are kept last first. -/
  | argument (callee : String) (read : List Shape)
  | index (array : Shape)
  | sign (operator : List Char)
  | assigned (operator : List Char) (left : Shape)

inductive State where
  /-- An expression begins. -/
  | front (frames : List Frame)
  /-- The word `this` has been read, or that and the dot behind it. -/
  | member (frames : List Frame)
  /-- An expression has been read, which may be the beginning of a longer one. -/
  | behind (frames : List Frame) (read : Shape)

/-- What a mark does behind an expression. -/
inductive Role where
  | opens
  | indexes
  | trails
  | closes
  | assigns
  | joins
deriving DecidableEq

def role (mark : List Char) : Role :=
  if mark = ['('] then .opens
  else if mark = ['['] then .indexes
  else if mark ∈ Operator.trailing.map String.toList then .trails
  else if mark ∈ [[')'], [']'], [','], [':']] then .closes
  else if mark ∈ Operator.assignment.map String.toList then .assigns
  else .joins

/-- Applies the signs in front. -/
def signed : List Frame → Shape → List Frame × Shape
  | .sign operator :: frames, e => signed frames (.unary (String.ofList operator) true e)
  | frames, e => (frames, e)

/-- Applies the signs and the assignments in front. -/
def settled : List Frame → Shape → List Frame × Shape
  | .sign operator :: frames, e => settled frames (.unary (String.ofList operator) true e)
  | .assigned operator left :: frames, e =>
    settled frames (.assignment (String.ofList operator) left e)
  | frames, e => (frames, e)

/-- Closes a part of what is open, or all of it. -/
def close (mark : List Char) : List Frame × Shape → Option State
  | (.operand operator left :: frames, e) =>
    some (.behind frames (.binary (String.ofList operator) left e))
  | (.consequent condition :: frames, e) => some (.front (.alternate condition e :: frames))
  | (.alternate condition consequent :: frames, e) =>
    some (.behind frames (.conditional condition consequent e))
  | (.argument callee read :: frames, e) =>
    if mark = [','] then some (.front (.argument callee (e :: read) :: frames))
    else some (.behind frames (.call callee (e :: read).reverse))
  | (.index array :: frames, e) => some (.behind frames (.element array e))
  | _ => none

/-- Goes on behind the left operand or the condition of a group. -/
def join (mark : List Char) : List Frame × Shape → Option State
  | (.group :: frames, e) =>
    if mark = ['?'] then some (.front (.consequent e :: frames))
    else some (.front (.operand mark e :: frames))
  | _ => none

/-- A mark in front of an expression. -/
def enter (mark : List Char) : Role → List Frame → State
  | .opens, frames => .front (.group :: frames)
  | .closes, .argument callee [] :: frames => .behind frames (.call callee [])
  | _, frames => .front (.sign mark :: frames)

/-- A mark behind an expression. -/
def extend (mark : List Char) (frames : List Frame) (e : Shape) : Role → Option State
  | .opens => match e with
    | .identifier name => some (.front (.argument name [] :: frames))
    | _ => none
  | .indexes => some (.front (.index e :: frames))
  | .trails => some (.behind frames (.unary (String.ofList mark) false e))
  | .closes => close mark (settled frames e)
  | .assigns => some (.front (.assigned mark (signed frames e).2 :: (signed frames e).1))
  | .joins => join mark (signed frames e)

/-- A word in front of an expression. -/
def begin (name : List Char) (frames : List Frame) : State :=
  if name = "this".toList then .member frames
  else if name = "true".toList then .behind frames (.boolean true)
  else if name = "false".toList then .behind frames (.boolean false)
  else .behind frames (.identifier (String.ofList name))

/-- The name of the kind in a marker. -/
def kindOf (body : List Char) : String :=
  String.ofList (body.drop " Unsupported expression: ".length).dropLast

def step : State → Token → Option State
  | .front frames, .number digits => some (.behind frames (.number (String.ofList digits)))
  | .front frames, .text value => some (.behind frames (.text (String.ofList value)))
  | .front frames, .comment body => some (.behind frames (.unsupported (kindOf body)))
  | .front frames, .word name => some (begin name frames)
  | .front frames, .mark mark => some (enter mark (role mark) frames)
  | .member frames, .mark _ => some (.member frames)
  | .member frames, .word name => some (.behind frames (.identifier (String.ofList name)))
  | .behind frames e, .mark mark => extend mark frames e (role mark)
  | _, _ => none

def run (s : State) (ts : List Token) : Option State := ts.foldlM step s

section

variable (frames : List Frame) (mark : List Char) (e : Shape) (ts : List Token)

private theorem run_behind : run (.behind frames e) (.mark mark :: ts)
    = (extend mark frames e (role mark)).bind fun s => run s ts := rfl

private theorem run_front : run (.front frames) (.mark mark :: ts)
    = run (enter mark (role mark) frames) ts := rfl

private theorem run_open :
    run (.front frames) (.mark ['('] :: ts) = run (.front (.group :: frames)) ts := rfl

private theorem run_word (name : List Char) :
    run (.front frames) (.word name :: ts) = run (begin name frames) ts := rfl

private theorem run_member (name : String) : run (.front frames) (memberTokens name ++ ts)
    = run (.behind frames (.identifier (String.ofList name.toList))) ts := rfl

private theorem run_digits (digits : List Char) : run (.front frames) (.number digits :: ts)
    = run (.behind frames (.number (String.ofList digits))) ts := rfl

private theorem run_text (value : List Char) : run (.front frames) (.text value :: ts)
    = run (.behind frames (.text (String.ofList value))) ts := rfl

private theorem run_comment (body : List Char) : run (.front frames) (.comment body :: ts)
    = run (.behind frames (.unsupported (kindOf body))) ts := rfl

private theorem run_question : run (.behind (.group :: frames) e) (.mark ['?'] :: ts)
    = run (.front (.consequent e :: frames)) ts := rfl

private theorem run_colon (condition : Shape) :
    run (.behind (.consequent condition :: frames) e) (.mark [':'] :: ts)
      = run (.front (.alternate condition e :: frames)) ts := rfl

private theorem run_close_alternate (condition consequent : Shape) :
    run (.behind (.alternate condition consequent :: frames) e) (.mark [')'] :: ts)
      = run (.behind frames (.conditional condition consequent e)) ts := rfl

private theorem run_close_operand (left : Shape) :
    run (.behind (.operand mark left :: frames) e) (.mark [')'] :: ts)
      = run (.behind frames (.binary (String.ofList mark) left e)) ts := rfl

private theorem run_call (callee : String) :
    run (.behind frames (.identifier callee)) (.mark ['('] :: ts)
    = run (.front (.argument callee [] :: frames)) ts := rfl

private theorem run_comma (callee : String) (read : List Shape) :
    run (.behind (.argument callee read :: frames) e) (.mark [','] :: ts)
      = run (.front (.argument callee (e :: read) :: frames)) ts := rfl

private theorem run_close_argument (callee : String) (read : List Shape) :
    run (.behind (.argument callee read :: frames) e) (.mark [')'] :: ts)
      = run (.behind frames (.call callee (e :: read).reverse)) ts := rfl

private theorem run_index : run (.behind frames e) (.mark ['['] :: ts)
    = run (.front (.index e :: frames)) ts := rfl

private theorem run_close_index (array : Shape) :
    run (.behind (.index array :: frames) e) (.mark [']'] :: ts)
      = run (.behind frames (.element array e)) ts := rfl

end

private theorem role_binary : ∀ operator ∈ Operator.binary, role operator.toList = .joins ∧
    operator.toList ≠ ['?'] := by
  decide +kernel

private theorem role_assignment :
    ∀ operator ∈ Operator.assignment, role operator.toList = .assigns := by
  decide +kernel

private theorem role_leading : ∀ operator ∈ Operator.leading, role operator.toList ≠ .opens ∧
    role operator.toList ≠ .closes := by
  decide +kernel

private theorem role_trailing : ∀ operator ∈ Operator.trailing, role operator.toList = .trails := by
  decide +kernel

/-- No sign waits for the expression that is being read. -/
def Clear : List Frame → Prop
  | .sign _ :: _ => False
  | _ => True

/-- Whether the expression ends where the rest begins. An operator in front of an operand does not
reach past a mark that ends the operand, and an assignment reaches as far as to what closes it. -/
def EndsBefore (frames : List Frame) (rest : List Token) : Expression → Prop
  | .unary _ _ _ => ∃ mark more, rest = .mark mark :: more ∧ role mark ∈ [.closes, .assigns, .joins]
  | .assignment _ _ _ => Clear frames ∧ ∃ mark more, rest = .mark mark :: more ∧ role mark = .closes
  | _ => True

section

variable {c : Context} {frames : List Frame} {mark operator : List Char} {rest : List Token}
  {e : Expression} {x left : Shape}

theorem endsBefore_closing (hclear : Clear frames) (h : role mark = .closes) :
    EndsBefore frames (.mark mark :: rest) e := by
  cases e with
  | unary => exact ⟨mark, rest, rfl, by simp [h]⟩
  | assignment => exact ⟨hclear, mark, rest, rfl, h⟩
  | _ => trivial

private theorem endsBefore_operand (he : e.isAssignment = false)
    (h : role mark ∈ [.closes, .assigns, .joins]) : EndsBefore frames (.mark mark :: rest) e := by
  cases e with
  | unary => exact ⟨mark, rest, rfl, h⟩
  | assignment => simp [Expression.isAssignment] at he
  | _ => trivial

private theorem endsBefore_primary (he : e.isAssignment = false) (hunary : e.isUnary = false) :
    EndsBefore frames rest e := by
  cases e with
  | unary => simp [Expression.isUnary] at hunary
  | assignment => simp [Expression.isAssignment] at he
  | _ => trivial

private theorem run_signed (h : role mark ∈ [.closes, .assigns, .joins]) :
    run (.behind (.sign operator :: frames) x) (.mark mark :: rest)
      = run (.behind frames (.unary (String.ofList operator) true x)) (.mark mark :: rest) := by
  have hroles : role mark = .closes ∨ role mark = .assigns ∨ role mark = .joins := by simpa using h
  rcases hroles with h | h | h <;> (rw [run_behind, run_behind, h]; rfl)

private theorem run_assigned (h : role mark = .closes) :
    run (.behind (.assigned operator left :: frames) x) (.mark mark :: rest)
      = run (.behind frames (.assignment (String.ofList operator) left x))
          (.mark mark :: rest) := by
  rw [run_behind, run_behind, h]
  rfl

private theorem signed_of_clear (h : Clear frames) : signed frames x = (frames, x) := by
  cases frames with
  | nil => rfl
  | cons frame frames =>
    cases frame with
    | sign operator => exact h.elim
    | _ => rfl

private theorem run_assign (h : role mark = .assigns) (hclear : Clear frames) :
    run (.behind frames x) (.mark mark :: rest)
      = run (.front (.assigned mark x :: frames)) rest := by
  have hextend : extend mark frames x .assigns
      = some (.front (.assigned mark (signed frames x).2 :: (signed frames x).1)) := rfl
  rw [run_behind, h, hextend, signed_of_clear hclear, Option.bind_some]

private theorem run_sign (h : role mark ≠ .opens ∧ role mark ≠ .closes) :
    run (.front frames) (.mark mark :: rest) = run (.front (.sign mark :: frames)) rest := by
  have henter : enter mark (role mark) frames = .front (.sign mark :: frames) := by
    cases hrole : role mark with
    | opens => exact absurd hrole h.1
    | closes => exact absurd hrole h.2
    | _ => rfl
  rw [run_front, henter]

private theorem run_trail (h : role mark = .trails) : run (.behind frames x) (.mark mark :: rest)
    = run (.behind frames (.unary (String.ofList mark) false x)) rest := by
  rw [run_behind, h]
  rfl

private theorem run_join (h : role mark = .joins ∧ mark ≠ ['?']) :
    run (.behind (.group :: frames) x) (.mark mark :: rest)
      = run (.front (.operand mark x :: frames)) rest := by
  have hextend : extend mark (.group :: frames) x .joins = join mark (.group :: frames, x) := rfl
  rw [run_behind, h.1, hextend, join, if_neg h.2, Option.bind_some]

private theorem run_name {name : String} (h : name ∉ Expression.literalWords) :
    run (.front frames) (.word name.toList :: rest)
      = run (.behind frames (.identifier name)) rest := by
  simp only [Expression.literalWords, List.mem_cons, List.not_mem_nil, or_false, not_or,
    ← String.toList_inj] at h
  rw [run_word, begin, if_neg h.1, if_neg h.2.1, if_neg h.2.2, String.ofList_toList]

private theorem run_identifier {name : String} (h : (Expression.identifier name).Plain c) :
    run (.front frames) (c.identifierTokens name ++ rest)
      = run (.behind frames (.identifier name)) rest := by
  obtain ⟨-, hword, hresolved⟩ := h
  rw [Context.identifierTokens]
  split
  · rw [run_member, String.ofList_toList]
  · next hlocal =>
    have hnone : Host.constant? name = none := by
      refine hresolved.resolve_right fun hglobal => hlocal ?_
      simp [hglobal]
    rw [hnone]
    exact run_name hword

private theorem run_callee {callee : String} {arguments : List Expression}
    (h : (Expression.call callee arguments).Plain c) :
    run (.front frames) (c.calleeTokens callee ++ .mark ['('] :: rest)
      = run (.front (.argument callee [] :: frames)) rest := by
  obtain ⟨-, hword, hnone⟩ := h
  rw [Context.calleeTokens, hnone, ← run_call]
  dsimp only
  split
  · rw [run_member, String.ofList_toList]
  · exact run_name hword

private theorem kindOf_markerBody (kind : String) : kindOf (Expression.markerBody kind) = kind := by
  have hbody : Expression.markerBody kind
      = " Unsupported expression: ".toList ++ (kind.toList ++ [' ']) := by
    simp [Expression.markerBody]
  rw [kindOf, hbody, ← String.length_toList, List.drop_left, List.dropLast_concat,
    String.ofList_toList]

private theorem run_number {x : Binary64} (h : (Expression.number x).Plain c) :
    run (.front frames) (numberTokens x ++ rest)
      = run (.behind frames (.number (Render.number x))) rest := by
  obtain ⟨-, hsign, hfinite⟩ := h
  have hnumber : x.isNaN = false := by
    simp only [Binary64.isFinite, Binary64.isNaN, decide_eq_true_eq, decide_eq_false_iff_not]
      at hfinite ⊢
    omega
  rw [numberTokens, magnitudeToken, Render.number]
  simp only [hsign, hnumber, hfinite]
  by_cases hzero : x.magnitude = 0
  · simp [hzero, run_digits]
  · simp [hzero, run_digits]

end

/-- The reader gets from the tokens of the expression to its shape, whatever is open around it. -/
def Reads (c : Context) (e : Expression) : Prop := ∀ frames rest, EndsBefore frames rest e →
  run (.front frames) (e.tokens c ++ rest) = run (.behind frames e.shape) rest

section

variable {c : Context} {frames : List Frame} {rest : List Token} {operator : String}
  {e l r : Expression}

/-- The arguments are read one by one, each up to its comma or to the bracket behind all of them. -/
theorem run_arguments {callee : String} {es : List Expression} (read : List Shape)
    (h : ∀ f ∈ e :: es, Reads c f) :
    run (.front (.argument callee read :: frames))
        ([Token.mark [',']].intercalate (Expression.tokensAll c (e :: es)) ++ .mark [')'] :: rest)
      = run (.behind frames (.call callee (read.reverse ++ Expression.shapes (e :: es)))) rest := by
  have hhead := h e List.mem_cons_self (.argument callee read :: frames)
  induction es generalizing e read with
  | nil =>
    rw [Expression.tokensAll, Expression.tokensAll, List.intercalate_singleton,
      hhead _ (endsBefore_closing trivial (by decide)), run_close_argument, List.reverse_cons]
    rfl
  | cons f es ih =>
    have hrest := ih (e := f) (e.shape :: read) (fun g hg => h g (List.mem_cons_of_mem e hg))
      (h f (List.mem_cons_of_mem e List.mem_cons_self) _)
    rw [Expression.tokensAll] at hrest ⊢
    rw [Expression.tokensAll, List.intercalate_cons_cons, List.append_assoc, List.append_assoc,
      List.singleton_append, hhead _ (endsBefore_closing trivial (by decide)), run_comma, hrest,
      List.reverse_cons, List.append_assoc, List.singleton_append]
    rfl

private theorem reads_binary (hop : operator ∈ Operator.binary)
    (hplain : (Expression.binary operator l r).Plain c) (hl : Reads c l) (hr : Reads c r) :
    Reads c (.binary operator l r) := by
  intro frames rest _
  have hrole := role_binary operator hop
  have hassign : l.isAssignment = false := hplain.1 l (by simp [Expression.tightOperands])
  have hleft := hl (.group :: frames) (.mark operator.toList :: (r.tokens c ++ .mark [')'] :: rest))
    (endsBefore_operand hassign (by simp [hrole.1]))
  have hright := hr (.operand operator.toList l.shape :: frames) (.mark [')'] :: rest)
    (endsBefore_closing trivial (by decide))
  simp only [Expression.tokens, List.cons_append, List.append_assoc, List.nil_append]
  rw [run_open, hleft, run_join hrole, hright, run_close_operand, String.ofList_toList]
  rfl

private theorem reads_leading (hop : operator ∈ Operator.leading)
    (hplain : (Expression.unary operator true e).Plain c) (he : Reads c e) :
    Reads c (.unary operator true e) := by
  rintro frames _ ⟨mark, more, rfl, hmark⟩
  have hassign : e.isAssignment = false := hplain.1 e (by simp [Expression.tightOperands])
  have hoperand := he (.sign operator.toList :: frames) (.mark mark :: more)
    (endsBefore_operand hassign hmark)
  rw [Expression.tokens, List.cons_append, run_sign (role_leading operator hop), hoperand,
    run_signed hmark, String.ofList_toList]
  rfl

private theorem reads_trailing (hop : operator ∈ Operator.trailing)
    (hplain : (Expression.unary operator false e).Plain c) (he : Reads c e) :
    Reads c (.unary operator false e) := by
  intro frames rest _
  have hassign : e.isAssignment = false := hplain.1 e (by simp [Expression.tightOperands])
  rw [Expression.tokens, List.append_assoc, List.singleton_append,
    he frames _ (endsBefore_primary hassign hplain.2), run_trail (role_trailing operator hop),
    String.ofList_toList]
  rfl

private theorem reads_assignment (hop : operator ∈ Operator.assignment)
    (hplain : (Expression.assignment operator l r).Plain c) (hl : Reads c l) (hr : Reads c r) :
    Reads c (.assignment operator l r) := by
  rintro frames _ ⟨hclear, mark, more, rfl, hmark⟩
  have hrole := role_assignment operator hop
  rw [Expression.tokens, List.append_assoc, List.cons_append,
    hl frames _ (endsBefore_operand hplain.2 (by simp [hrole])), run_assign hrole hclear,
    hr (.assigned operator.toList l.shape :: frames) _ (endsBefore_closing trivial hmark),
    run_assigned hmark, String.ofList_toList]
  rfl

private theorem reads_conditional (hplain : (Expression.conditional e l r).Plain c) (he : Reads c e)
    (hl : Reads c l) (hr : Reads c r) : Reads c (.conditional e l r) := by
  intro frames rest _
  have hassign : e.isAssignment = false := hplain.1 e (by simp [Expression.tightOperands])
  have hcondition := he (.group :: frames)
    (.mark ['?'] :: (l.tokens c ++ .mark [':'] :: (r.tokens c ++ .mark [')'] :: rest)))
    (endsBefore_operand hassign (by decide))
  have hleft := hl (.consequent e.shape :: frames)
    (.mark [':'] :: (r.tokens c ++ .mark [')'] :: rest))
    (endsBefore_closing trivial (by decide))
  have hright := hr (.alternate e.shape l.shape :: frames) (.mark [')'] :: rest)
    (endsBefore_closing trivial (by decide))
  simp only [Expression.tokens, List.cons_append, List.append_assoc, List.nil_append]
  rw [run_open, hcondition, run_question, hleft, run_colon, hright, run_close_alternate]
  rfl

private theorem reads_call {callee : String} {arguments : List Expression}
    (hplain : (Expression.call callee arguments).Plain c) (h : ∀ e ∈ arguments, Reads c e) :
    Reads c (.call callee arguments) := by
  intro frames rest _
  rw [Expression.tokens, List.append_assoc, List.cons_append, run_callee hplain, List.append_assoc,
    List.singleton_append]
  cases arguments with
  | nil => rfl
  | cons e es => exact run_arguments [] h

private theorem reads_element (hplain : (Expression.element l r).Plain c) (hl : Reads c l)
    (hr : Reads c r) : Reads c (.element l r) := by
  intro frames rest _
  have hassign : l.isAssignment = false := hplain.1 l (by simp [Expression.tightOperands])
  have hindex := hr (.index l.shape :: frames) (.mark [']'] :: rest)
    (endsBefore_closing trivial (by decide))
  rw [Expression.tokens, List.append_assoc, List.cons_append, List.append_assoc,
    List.singleton_append, hl frames _ (endsBefore_primary hassign hplain.2), run_index, hindex,
    run_close_index]
  rfl

/-- Every expression whose nodes are plain is read. -/
theorem reads_tokens (h : ∀ n ∈ e.nodes, n.proper = true ∧ n.Plain c) : Reads c e := by
  induction e with
  | number value => exact fun _ _ _ => run_number (h _ List.mem_cons_self).2
  | text value =>
    intro frames rest _
    rw [Expression.tokens, List.singleton_append, run_text, String.ofList_toList]
    rfl
  | boolean value =>
    intro frames rest _
    cases value <;> rfl
  | identifier name => exact fun _ _ _ => run_identifier (h _ List.mem_cons_self).2
  | binary operator left right ihl ihr =>
    obtain ⟨hproper, hplain⟩ := h _ (Expression.self_mem_nodes _)
    exact reads_binary (by simpa [Expression.proper] using hproper) hplain
      (ihl fun n hn => h n (by simp [Expression.nodes, hn]))
      (ihr fun n hn => h n (by simp [Expression.nodes, hn]))
  | unary operator leading operand ih =>
    obtain ⟨hproper, hplain⟩ := h _ (Expression.self_mem_nodes _)
    have hoperand := ih fun n hn => h n (by simp [Expression.nodes, hn])
    cases leading with
    | true => exact reads_leading (by simpa [Expression.proper] using hproper) hplain hoperand
    | false => exact reads_trailing (by simpa [Expression.proper] using hproper) hplain hoperand
  | assignment operator left right ihl ihr =>
    obtain ⟨hproper, hplain⟩ := h _ (Expression.self_mem_nodes _)
    exact reads_assignment (by simpa [Expression.proper] using hproper) hplain
      (ihl fun n hn => h n (by simp [Expression.nodes, hn]))
      (ihr fun n hn => h n (by simp [Expression.nodes, hn]))
  | conditional condition consequent alternate ihc ihl ihr =>
    exact reads_conditional (h _ (Expression.self_mem_nodes _)).2
      (ihc fun n hn => h n (by simp [Expression.nodes, hn]))
      (ihl fun n hn => h n (by simp [Expression.nodes, hn]))
      (ihr fun n hn => h n (by simp [Expression.nodes, hn]))
  | call callee arguments ih =>
    refine reads_call (h _ (Expression.self_mem_nodes _)).2 fun e he => ih e he fun n hn => h n ?_
    rw [Expression.nodes, Expression.nodesAll_eq]
    exact List.mem_cons_of_mem _ (List.mem_flatMap.mpr ⟨e, he, hn⟩)
  | element array index iha ihi =>
    exact reads_element (h _ (Expression.self_mem_nodes _)).2
      (iha fun n hn => h n (by simp [Expression.nodes, hn]))
      (ihi fun n hn => h n (by simp [Expression.nodes, hn]))
  | unsupported kind =>
    intro frames rest _
    rw [Expression.tokens, List.singleton_append, run_comment, kindOf_markerBody]
    rfl

end

end JavaScript

end Advisor
