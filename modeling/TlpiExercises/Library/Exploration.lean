import Mathlib

/-!
# Depth-first traversals that mark

A traversal finds nodes along links, and takes each one that it finds out of the fresh ones.
-/

namespace Exploration

open Relation

variable {α : Type*} (link : α → α → Prop)

/-- From the first node to the second one by links to fresh nodes. -/
def Below (fresh : Multiset α) : α → α → Prop := TransGen fun a b => link a b ∧ b ∈ fresh

/-- No fresh node is left that the node has a link to. -/
def Done (fresh : Multiset α) (a : α) : Prop := ∀ b ∈ fresh, ¬ link a b

/-- What a traversal from `root` finds, and what it leaves. -/
structure Visit (fresh : Multiset α) (root : α) (found : List α) (left : Multiset α) : Prop where
  account : fresh = ↑found + left
  done : ∀ a, a = root ∨ a ∈ found → Done link left a
  reached : ∀ a ∈ found, Below link fresh root a

/-- What the traversals from the nodes of a queue find, with these nodes. They are not fresh any
more. -/
structure Scan (fresh : Multiset α) (queue found : List α) (left : Multiset α) : Prop where
  account : ∃ new : Multiset α, fresh = new + left ∧ (found : Multiset α) = ↑queue + new
  done : ∀ a ∈ found, Done link left a
  reached : ∀ a ∈ found, a ∈ queue ∨ ∃ b ∈ queue, Below link fresh b a

variable {link} {fresh middle left : Multiset α} {root a b : α} {found later queue : List α}

theorem below_mono (more : left ≤ fresh) (below : Below link left a b) : Below link fresh a b := by
  refine TransGen.mono ?_ a b below
  rintro c d ⟨step, member⟩
  exact ⟨step, Multiset.mem_of_le more member⟩

theorem done_mono (more : left ≤ fresh) (done : Done link fresh a) : Done link left a :=
  fun b member => done b (Multiset.mem_of_le more member)

theorem below_fresh (below : Below link fresh a b) : b ∈ fresh := by
  obtain ⟨_, _, _, member⟩ := TransGen.tail'_iff.mp below
  exact member

theorem below_trans (first : Below link fresh a b) {c : α} (second : Below link fresh b c) :
    Below link fresh a c := TransGen.trans first second

namespace Visit

theorem left_le (visit : Visit link fresh root found left) : left ≤ fresh :=
  visit.account ▸ Multiset.le_add_left _ _

/-- A node without fresh ones below it. -/
theorem leaf (done : Done link fresh a) : Visit link fresh a [] fresh where
  account := (zero_add fresh).symm
  done := by
    rintro b (rfl | member)
    · exact done
    · cases member
  reached := fun _ member => by cases member

theorem nodup (visit : Visit link fresh root found left) (distinct : fresh.Nodup) : found.Nodup := by
  rw [visit.account] at distinct
  exact Multiset.coe_nodup.mp (Multiset.nodup_add.mp distinct).1

/-- The traversal finds exactly what is below its root. -/
theorem mem_iff (visit : Visit link fresh root found left) :
    a ∈ found ↔ Below link fresh root a := by
  constructor
  · exact visit.reached a
  · intro below
    have find : ∀ {b c}, b = root ∨ b ∈ found → link b c ∧ c ∈ fresh → c ∈ found := by
      rintro b c begun ⟨step, member⟩
      rw [visit.account, Multiset.mem_add] at member
      rcases member with member | remaining
      · exact member
      · exact absurd step (visit.done b begun c remaining)
    induction below with
    | single step => exact find (Or.inl rfl) step
    | tail _ step ih => exact find (Or.inr ih) step

end Visit

namespace Scan

theorem left_le (scan : Scan link fresh queue found left) : left ≤ fresh := by
  obtain ⟨new, account, _⟩ := scan.account
  rw [account]
  exact Multiset.le_add_left _ _

theorem nil : Scan link fresh [] [] fresh where
  account := ⟨0, (zero_add fresh).symm, rfl⟩
  done := fun _ member => by cases member
  reached := fun _ member => by cases member

/-- The first node of the queue, and the others after it. -/
theorem cons (visit : Visit link fresh a found middle) (scan : Scan link middle queue later left) :
    Scan link fresh (a :: queue) (a :: found ++ later) left where
  account := by
    obtain ⟨new, account, total⟩ := scan.account
    refine ⟨↑found + new, ?_, ?_⟩
    · rw [visit.account, account, add_assoc]
    · rw [← Multiset.coe_add, total, ← Multiset.cons_coe, ← Multiset.cons_coe]
      rw [Multiset.cons_add, Multiset.cons_add]
      exact congrArg _ (add_left_comm _ _ _)
  done := by
    intro b member
    rcases List.mem_append.mp member with first | second
    · exact done_mono scan.left_le (visit.done b (List.mem_cons.mp first))
    · exact scan.done b second
  reached := by
    intro b member
    rcases List.mem_append.mp member with first | second
    · rcases List.mem_cons.mp first with rfl | inside
      · exact Or.inl List.mem_cons_self
      · exact Or.inr ⟨a, List.mem_cons_self, visit.reached b inside⟩
    · rcases scan.reached b second with queued | ⟨c, queued, below⟩
      · exact Or.inl (List.mem_cons_of_mem _ queued)
      · exact Or.inr ⟨c, List.mem_cons_of_mem _ queued, below_mono visit.left_le below⟩

/-- A node takes all fresh nodes that it has links to, and visits each of them. -/
theorem visit (taken : fresh = ↑queue + middle) (links : ∀ a ∈ queue, link root a)
    (done : Done link middle root) (scan : Scan link middle queue found left) :
    Visit link fresh root found left where
  account := by
    obtain ⟨new, account, total⟩ := scan.account
    rw [taken, account, total, add_assoc]
  done := by
    rintro a (rfl | member)
    · exact done_mono scan.left_le done
    · exact scan.done a member
  reached := by
    intro a member
    have queued : ∀ b ∈ queue, Below link fresh root b := by
      intro b inside
      refine TransGen.single ⟨links b inside, ?_⟩
      rw [taken]
      exact Multiset.mem_add.mpr (Or.inl inside)
    have less : middle ≤ fresh := taken ▸ Multiset.le_add_left _ _
    rcases scan.reached a member with inside | ⟨b, inside, below⟩
    · exact queued a inside
    · exact below_trans (queued b inside) (below_mono less below)

end Scan

end Exploration
