import Advisor.Proofs.Script.Nodes
import Advisor.Render.Statement

/-!
# Bodies

The body of a function, of a branch or of a loop is put in braces. A block inside of a block is not,
so its variables are declared in the body around it.
-/

namespace Advisor.Statement

mutual

/-- The names that the statement declares in the body that it is in. -/
def openNames : Statement → List String
  | block body => openNamesAll body
  | declare declared => [declared.name]
  | _ => []

def openNamesAll : List Statement → List String
  | [] => []
  | s :: rest => s.openNames ++ openNamesAll rest

end

theorem openNamesAll_eq (body : List Statement) : openNamesAll body = body.flatMap openNames := by
  induction body with
  | nil => rfl
  | cons s rest ih => rw [openNamesAll, ih, List.flatMap_cons]

theorem openNames_of_isBranch {s : Statement} (h : s.isBranch = true) : s.openNames = [] := by
  cases s with
  | branch => rfl
  | _ => exact absurd h Bool.false_ne_true

mutual

/-- The bodies of the branches and loops inside the statement, in the order of their ends. A branch
that is the alternate of another is no body. -/
def bodies : Statement → List Statement
  | block body => bodiesAll body
  | branch _ consequent none => consequent.bodies ++ [consequent]
  | branch _ consequent (some alternate) =>
    consequent.bodies ++ [consequent] ++ alternate.bodies
      ++ (if alternate.isBranch then [] else [alternate])
  | forLoop _ _ _ body => body.bodies ++ [body]
  | whileLoop _ body => body.bodies ++ [body]
  | _ => []

def bodiesAll : List Statement → List Statement
  | [] => []
  | s :: rest => s.bodies ++ bodiesAll rest

end

theorem bodiesAll_eq (body : List Statement) : bodiesAll body = body.flatMap bodies := by
  induction body with
  | nil => rfl
  | cons s rest ih => rw [bodiesAll, ih, List.flatMap_cons]

private theorem bodies_subset_nodes (s : Statement) : s.bodies ⊆ s.nodes := by
  induction s with
  | block body ih =>
    intro b hb
    rw [bodies, bodiesAll_eq] at hb
    obtain ⟨t, ht, hb⟩ := List.mem_flatMap.mp hb
    exact nodes_subset_block ht (ih t ht hb)
  | branch condition consequent alternate ihc iha =>
    have hconsequent := nodes_subset_consequent condition consequent alternate
    have hinside : consequent.bodies ++ [consequent] ⊆ (branch condition consequent alternate).nodes :=
      List.append_subset.mpr ⟨List.Subset.trans ihc hconsequent,
        List.cons_subset.mpr ⟨hconsequent consequent.self_mem_nodes, List.nil_subset _⟩⟩
    cases alternate with
    | none => exact hinside
    | some alternate =>
      have halternate := nodes_subset_alternate condition consequent alternate
      have hlast : (if alternate.isBranch then [] else [alternate])
          ⊆ (branch condition consequent (some alternate)).nodes := by
        split
        · exact List.nil_subset _
        · exact List.cons_subset.mpr ⟨halternate alternate.self_mem_nodes, List.nil_subset _⟩
      exact List.append_subset.mpr ⟨List.append_subset.mpr
        ⟨hinside, List.Subset.trans (iha alternate rfl) halternate⟩, hlast⟩
  | forLoop init condition update body ih | whileLoop condition body ih =>
    intro b hb
    rcases List.mem_append.mp hb with hb | hb
    · exact List.mem_cons_of_mem _ (ih hb)
    · rw [List.mem_singleton.mp hb]
      exact List.mem_cons_of_mem _ body.self_mem_nodes
  | _ => exact List.nil_subset _

/-- What a statement declares is declared in one of the bodies. -/
theorem exists_sublist_openNames {s n : Statement} (h : n ∈ s.nodes) :
    ∃ b ∈ s.bodies ++ [s], n.openNames.Sublist b.openNames := by
  have hself (s : Statement) : ∃ b ∈ s.bodies ++ [s], s.openNames.Sublist b.openNames :=
    ⟨s, by simp, List.Sublist.refl _⟩
  induction s with
  | block body ih =>
    rw [nodes, nodesAll_eq] at h
    rcases List.mem_cons.mp h with rfl | h
    · exact hself _
    · obtain ⟨t, ht, h⟩ := List.mem_flatMap.mp h
      obtain ⟨b, hb, hsub⟩ := ih t ht h
      rw [bodies, bodiesAll_eq]
      rcases List.mem_append.mp hb with hb | hb
      · exact ⟨b, List.mem_append_left _ (List.mem_flatMap.mpr ⟨t, ht, hb⟩), hsub⟩
      · refine ⟨block body, by simp, hsub.trans ?_⟩
        rw [List.mem_singleton.mp hb, openNames, openNamesAll_eq, List.flatMap_def]
        exact List.sublist_flatten_of_mem (List.mem_map_of_mem ht)
  | branch condition consequent alternate ihc iha =>
    have hconsequent {b : Statement} (hb : b ∈ consequent.bodies ++ [consequent]) :
        b ∈ (branch condition consequent alternate).bodies := by
      cases alternate with
      | none => exact hb
      | some alternate => exact List.mem_append_left _ (List.mem_append_left _ hb)
    cases alternate with
    | none =>
      rcases List.mem_cons.mp h with rfl | h
      · exact hself _
      · obtain ⟨b, hb, hsub⟩ := ihc h
        exact ⟨b, List.mem_append_left _ (hconsequent hb), hsub⟩
    | some alternate =>
      simp only [nodes, List.mem_cons, List.mem_append] at h
      rcases h with rfl | h | h
      · exact hself _
      · obtain ⟨b, hb, hsub⟩ := ihc h
        exact ⟨b, List.mem_append_left _ (hconsequent hb), hsub⟩
      · obtain ⟨b, hb, hsub⟩ := iha alternate rfl h
        rcases List.mem_append.mp hb with hb | hb
        · exact ⟨b, by simp [bodies, hb], hsub⟩
        · rw [List.mem_singleton.mp hb] at hsub
          by_cases hbranch : alternate.isBranch = true
          · have hnone : n.openNames.Sublist [] := openNames_of_isBranch hbranch ▸ hsub
            exact ⟨_, List.mem_append_right _ List.mem_cons_self, hnone.trans (List.nil_sublist _)⟩
          · exact ⟨alternate, by simp [bodies, hbranch], hsub⟩
  | forLoop init condition update body ih | whileLoop condition body ih =>
    rcases List.mem_cons.mp h with rfl | h
    · exact hself _
    · obtain ⟨b, hb, hsub⟩ := ih h
      exact ⟨b, List.mem_append_left _ hb, hsub⟩
  | _ =>
    rw [List.mem_singleton.mp h]
    exact hself _

/-- No body declares a name twice exactly if no block does with the blocks inside of it. -/
theorem nodup_openNames_iff {s : Statement} : (∀ b ∈ s.bodies ++ [s], b.openNames.Nodup) ↔
    ∀ body, block body ∈ s.nodes → (body.flatMap openNames).Nodup := by
  constructor
  · intro h body hbody
    obtain ⟨b, hb, hsub⟩ := exists_sublist_openNames hbody
    rw [openNames, openNamesAll_eq] at hsub
    exact (h b hb).sublist hsub
  · intro h b hb
    have hnode : b ∈ s.nodes := by
      rcases List.mem_append.mp hb with hb | hb
      · exact bodies_subset_nodes s hb
      · rw [List.mem_singleton.mp hb]
        exact s.self_mem_nodes
    cases b with
    | block body =>
      rw [openNames, openNamesAll_eq]
      exact h body hnode
    | declare declared => exact List.pairwise_singleton _ _
    | _ => exact List.Pairwise.nil

end Advisor.Statement
