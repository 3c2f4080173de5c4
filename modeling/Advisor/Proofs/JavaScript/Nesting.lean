import Advisor.Proofs.JavaScript.Depth

/-!
# Open brackets

Which brackets are open behind a sequence of tokens, if each closing one closes the innermost that
is open and is of its kind. Tokens that leave the brackets as they find them can stand anywhere.
-/

namespace Advisor.JavaScript

/-- The brackets that are open behind the mark, the innermost first, given those in front. -/
def bracket (stack : List (List Char)) (mark : List Char) : Option (List (List Char)) :=
  if mark ∈ opening then some (mark :: stack)
  else if mark ∈ closing then
    if (stack.headD [], mark) ∈ opening.zip closing then some stack.tail else none
  else some stack

def Token.mark? : Token → Option (List Char)
  | .mark m => some m
  | _ => none

/-- The brackets that are open behind the tokens. -/
def nest (stack : List (List Char)) (ts : List Token) : Option (List (List Char)) :=
  (ts.filterMap Token.mark?).foldlM bracket stack

/-- How many braces are open. -/
def braces (stack : List (List Char)) : Nat := stack.count ['\x7b']

@[simp] theorem braces_brace (stack : List (List Char)) :
    braces (['\x7b'] :: stack) = braces stack + 1 :=
  List.count_cons_self

@[simp] theorem nest_nil (stack : List (List Char)) : nest stack [] = some stack := rfl

theorem nest_append (stack : List (List Char)) (ts us : List Token) :
    nest stack (ts ++ us) = (nest stack ts).bind (nest · us) := by
  rw [nest, List.filterMap_append, List.foldlM_append]
  rfl

theorem nest_word (stack : List (List Char)) (name : List Char) (rest : List Token) :
    nest stack (.word name :: rest) = nest stack rest := rfl

section Marks

variable {mark top : List Char}

theorem nest_cons (stack : List (List Char)) (mark : List Char) (rest : List Token) :
    nest stack (.mark mark :: rest) = (bracket stack mark).bind (nest · rest) := rfl

theorem nest_open (h : mark ∈ opening) (stack : List (List Char)) (rest : List Token) :
    nest stack (.mark mark :: rest) = nest (mark :: stack) rest := by
  rw [nest_cons, bracket, if_pos h, Option.bind_some]

theorem nest_close (h : (top, mark) ∈ opening.zip closing) (stack : List (List Char))
    (rest : List Token) : nest (top :: stack) (.mark mark :: rest) = nest stack rest := by
  have hopen : ∀ mark ∈ closing, mark ∉ opening := by decide
  have hclose := (List.of_mem_zip h).2
  rw [nest_cons, bracket, if_neg (hopen mark hclose), if_pos hclose, List.headD_cons, if_pos h,
    List.tail_cons, Option.bind_some]

theorem nest_mark (h : mark ∉ opening ++ closing) (stack : List (List Char)) (rest : List Token) :
    nest stack (.mark mark :: rest) = nest stack rest := by
  obtain ⟨hopen, hclose⟩ := by simpa only [List.mem_append, not_or] using h
  rw [nest_cons, bracket, if_neg hopen, if_neg hclose, Option.bind_some]

end Marks

private theorem bracket_frame {stack inner : List (List Char)} {mark : List Char}
    (h : bracket stack mark = some inner) (outer : List (List Char)) :
    bracket (stack ++ outer) mark = some (inner ++ outer) := by
  have hpair : ∀ mark, ([], mark) ∉ opening.zip closing := by
    intro mark hmem
    exact absurd (List.of_mem_zip hmem).1 (by decide)
  cases stack <;> grind [bracket]

/-- What is open in front of all that the tokens close does not matter to them. -/
theorem nest_frame {stack last : List (List Char)} {ts : List Token} (h : nest stack ts = some last)
    (outer : List (List Char)) : nest (stack ++ outer) ts = some (last ++ outer) := by
  rw [nest] at h ⊢
  generalize ts.filterMap Token.mark? = marks at h ⊢
  induction marks generalizing stack with
  | nil => rw [Option.some.inj h, List.foldlM_nil, Option.pure_def]
  | cons mark marks ih =>
    rw [List.foldlM_cons] at h ⊢
    obtain ⟨inner, hinner, hlast⟩ := Option.bind_eq_some_iff.mp h
    rw [bracket_frame hinner outer]
    exact ih hlast

/-- The tokens leave the open brackets as they find them. -/
def Neutral (ts : List Token) : Prop :=
  ∀ stack rest, nest stack (ts ++ rest) = nest stack rest

theorem neutral_of_nest {ts : List Token} (h : nest [] ts = some []) : Neutral ts := by
  intro stack rest
  have hstack : nest stack ts = some stack := nest_frame h stack
  rw [nest_append, hstack, Option.bind_some]

theorem neutral_nil : Neutral [] := fun _ _ => rfl

theorem Neutral.append {ts us : List Token} (h : Neutral ts) (h' : Neutral us) :
    Neutral (ts ++ us) := by
  intro stack rest
  rw [List.append_assoc, h, h']

theorem Neutral.mark_cons {mark : List Char} {ts : List Token} (hmark : mark ∉ opening ++ closing)
    (h : Neutral ts) : Neutral (.mark mark :: ts) := by
  intro stack rest
  rw [List.cons_append, nest_mark hmark, h]

theorem Neutral.word_cons {ts : List Token} (name : List Char) (h : Neutral ts) :
    Neutral (.word name :: ts) := h

theorem neutral_mark {mark : List Char} (hmark : mark ∉ opening ++ closing) :
    Neutral [.mark mark] :=
  neutral_nil.mark_cons hmark

theorem Neutral.nest {ts : List Token} (h : Neutral ts) (stack : List (List Char)) :
    nest stack ts = some stack := by
  have hrest := h stack []
  rwa [List.append_nil] at hrest

theorem Neutral.intercalate {sep : List Token} {tss : List (List Token)} (hsep : Neutral sep)
    (h : ∀ ts ∈ tss, Neutral ts) : Neutral (sep.intercalate tss) := by
  induction tss with
  | nil => exact neutral_nil
  | cons ts tss ih =>
    obtain ⟨hts, htss⟩ := List.forall_mem_cons.mp h
    cases tss with
    | nil => rwa [List.intercalate_singleton]
    | cons us tss =>
      rw [List.intercalate_cons_cons]
      exact (hts.append hsep).append (ih htss)

theorem neutral_flatMap {α : Type} {tokens : α → List Token} {as : List α}
    (h : ∀ a ∈ as, Neutral (tokens a)) : Neutral (as.flatMap tokens) := by
  induction as with
  | nil => exact neutral_nil
  | cons a as ih =>
    obtain ⟨ha, has⟩ := List.forall_mem_cons.mp h
    exact ha.append (ih has)

end Advisor.JavaScript
