import Mathlib.Data.List.Cycle
import Mathlib.Tactic.Common

/-! # Rings of linked nodes

A ring is kept by the pointers of its nodes: each points to the one after it, the
last to the first. Where the ring begins is up to the reader, so the facts about one
node are stated for a ring that is cut open there.
-/

namespace Foundation

universe u

variable {Node : Type u} {next next' : Node → Node} {before after nodes : List Node}
  {node fresh first : Node}

/-- In a chain, the last element is no left neighbour. -/
theorem isChain_concat_imp {r s : Node → Node → Prop} (himp : ∀ a ∈ nodes, ∀ b, r a b → s a b)
    (hchain : List.IsChain r (nodes ++ [node])) : List.IsChain s (nodes ++ [node]) := by
  induction nodes with
  | nil => exact List.isChain_singleton node
  | cons a rest ih =>
      have hrest : List.IsChain s (rest ++ [node]) :=
        ih (fun b hb => himp b (List.mem_cons_of_mem a hb)) hchain.tail
      cases rest with
      | nil =>
          exact List.isChain_cons_cons.mpr
            ⟨himp a List.mem_cons_self node (List.isChain_cons_cons.mp hchain).1, hrest⟩
      | cons b rest =>
          exact List.isChain_cons_cons.mpr
            ⟨himp a List.mem_cons_self b (List.isChain_cons_cons.mp hchain).1, hrest⟩

/-- Each node points to the one after it, and the last to the first. -/
def Linked (next : Node → Node) (nodes : List Node) : Prop :=
  Cycle.Chain (fun node after => next node = after) (nodes : Cycle Node)

theorem linked_append_comm :
    Linked next (before ++ after) ↔ Linked next (after ++ before) := by
  unfold Linked
  rw [Cycle.coe_eq_coe.mpr (List.isRotated_append : (before ++ after).IsRotated (after ++ before))]

theorem linked_singleton : Linked next [node] ↔ next node = node :=
  Cycle.chain_singleton _ node

theorem linked_cons_iff : Linked next (first :: nodes) ↔
    List.IsChain (fun node after => next node = after) (first :: (nodes ++ [first])) :=
  Cycle.chain_coe_cons _ first nodes

/-- The node in front of another points to it. -/
theorem Linked.next_eq {following : Node}
    (hlinked : Linked next (before ++ node :: following :: after)) : next node = following := by
  rw [linked_append_comm, List.cons_append, List.cons_append, linked_cons_iff] at hlinked
  exact (List.isChain_cons_cons.mp hlinked).1

theorem Linked.next_last (hlinked : Linked next (first :: nodes)) :
    next ((first :: nodes).getLast (by simp)) = first := by
  rcases List.eq_nil_or_concat nodes with rfl | ⟨middle, last, rfl⟩
  · exact linked_singleton.mp hlinked
  · have hrotated : Linked next ([last] ++ (first :: middle)) := linked_append_comm.mp
      (by simpa using hlinked)
    simpa using @Linked.next_eq _ next [] _ _ _ hrotated

/-- Only the pointers of the nodes matter. -/
theorem Linked.congr (hlinked : Linked next nodes)
    (hsame : ∀ node ∈ nodes, next' node = next node) : Linked next' nodes := by
  cases nodes with
  | nil => exact Cycle.Chain.nil _
  | cons first rest =>
      rw [linked_cons_iff] at hlinked ⊢
      exact isChain_concat_imp
        (fun node hnode after heq => (hsame node hnode).trans heq) hlinked

/-- A fresh node that points where a node points can be put after that node. -/
theorem Linked.insert (hlinked : Linked next (before ++ node :: after))
    (hnode : next' node = fresh) (hfresh : next' fresh = next node)
    (hothers : ∀ other ∈ before ++ after, next' other = next other) :
    Linked next' (before ++ node :: fresh :: after) := by
  have hothers' : ∀ other ∈ after ++ before, next' other = next other := by
    intro other hother
    exact hothers other (by simpa [or_comm] using hother)
  rw [linked_append_comm, List.cons_append] at hlinked ⊢
  rw [List.cons_append]
  generalize after ++ before = rest at hlinked hothers'
  rw [linked_cons_iff] at hlinked ⊢
  cases rest with
  | nil =>
      have hself : next node = node := by simpa using hlinked
      simp [hnode, hfresh, hself]
  | cons following rest =>
      simp only [List.cons_append, List.isChain_cons_cons] at hlinked ⊢
      refine ⟨hnode, hfresh.trans hlinked.1, ?_⟩
      exact isChain_concat_imp
        (fun other hother later heq => (hothers' other hother).trans heq) hlinked.2

end Foundation
