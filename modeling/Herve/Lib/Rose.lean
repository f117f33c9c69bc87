import Mathlib

/-! Trees whose nodes have a list of children, and the list of their values that has every parent
before its children. -/

universe u v

inductive Rose (α : Type u)
  | node (value : α) (children : List (Rose α))

namespace Rose
variable {α : Type u} {β : Type v}

def value : Rose α → α
  | node a _ => a

@[simp] theorem value_node (a : α) (cs : List (Rose α)) : (node a cs).value = a := rfl

def children : Rose α → List (Rose α)
  | node _ cs => cs

@[simp] theorem children_node (a : α) (cs : List (Rose α)) : (node a cs).children = cs := rfl

@[elab_as_elim]
theorem induction {motive : Rose α → Prop}
    (node : ∀ a cs, (∀ c ∈ cs, motive c) → motive (node a cs)) (t : Rose α) : motive t :=
  @Rose.rec α motive (fun cs => ∀ c ∈ cs, motive c) node
    (fun _ hc => absurd hc List.not_mem_nil)
    (fun _ _ hc hcs => List.forall_mem_cons.2 ⟨hc, hcs⟩) t

/-! ## Preorder -/

mutual
def preorder : Rose α → List α
  | node a cs => a :: preorderAll cs

def preorderAll : List (Rose α) → List α
  | [] => []
  | c :: cs => preorder c ++ preorderAll cs
end

theorem preorder_node (a : α) (cs : List (Rose α)) :
    (node a cs).preorder = a :: preorderAll cs := by
  rw [preorder]

theorem preorderAll_nil : preorderAll ([] : List (Rose α)) = [] := by
  rw [preorderAll]

theorem preorderAll_cons (c : Rose α) (cs : List (Rose α)) :
    preorderAll (c :: cs) = c.preorder ++ preorderAll cs := by
  rw [preorderAll]

theorem preorderAll_eq (cs : List (Rose α)) : preorderAll cs = cs.flatMap preorder := by
  induction cs with
  | nil => rw [preorderAll_nil, List.flatMap_nil]
  | cons c cs ih => rw [preorderAll_cons, ih, List.flatMap_cons]

theorem value_mem_preorder (t : Rose α) : t.value ∈ t.preorder := by
  cases t
  rw [preorder_node]
  exact List.mem_cons_self

/-! ## Relabelling -/

mutual
def map (f : α → β) : Rose α → Rose β
  | node a cs => node (f a) (mapAll f cs)

def mapAll (f : α → β) : List (Rose α) → List (Rose β)
  | [] => []
  | c :: cs => map f c :: mapAll f cs
end

variable (f : α → β)

theorem mapAll_eq (cs : List (Rose α)) : mapAll f cs = cs.map (map f) := by
  induction cs with
  | nil => rw [mapAll, List.map_nil]
  | cons c cs ih => rw [mapAll, ih, List.map_cons]

theorem map_node (a : α) (cs : List (Rose α)) :
    (node a cs).map f = node (f a) (cs.map (map f)) := by
  rw [map, mapAll_eq]

variable {f}

/-- The shapes of trees and their preorder lists determine them, if they do so for each tree. -/
theorem eq_of_preorderAll {cs ds : List (Rose α)}
    (ih : ∀ c ∈ cs, ∀ (t : Rose α) (xs ys : List α), c.map f = t.map f →
      c.preorder ++ xs = t.preorder ++ ys → c = t ∧ xs = ys) {xs ys : List α}
    (hmap : cs.map (map f) = ds.map (map f))
    (h : preorderAll cs ++ xs = preorderAll ds ++ ys) : cs = ds ∧ xs = ys := by
  induction cs generalizing ds with
  | nil =>
    obtain rfl := List.map_eq_nil_iff.1 hmap.symm
    exact ⟨rfl, h⟩
  | cons c cs ihs =>
    cases ds with
    | nil => exact absurd hmap (List.cons_ne_nil _ _)
    | cons d ds =>
      rw [List.map_cons, List.map_cons, List.cons.injEq] at hmap
      rw [preorderAll_cons, preorderAll_cons, List.append_assoc, List.append_assoc] at h
      obtain ⟨rfl, hrest⟩ := ih c List.mem_cons_self d _ _ hmap.1 h
      obtain ⟨rfl, hend⟩ := ihs (fun c hc => ih c (List.mem_cons_of_mem _ hc)) hmap.2 hrest
      exact ⟨rfl, hend⟩

/-- The shape of a tree and its preorder list determine it. -/
theorem eq_of_preorder {s t : Rose α} {xs ys : List α} (hmap : s.map f = t.map f)
    (h : s.preorder ++ xs = t.preorder ++ ys) : s = t ∧ xs = ys := by
  induction s using Rose.induction generalizing t xs ys with
  | node a cs ih =>
    obtain ⟨b, ds⟩ := t
    rw [map_node, map_node, node.injEq] at hmap
    rw [preorder_node, preorder_node, List.cons_append, List.cons_append, List.cons.injEq] at h
    obtain ⟨rfl, hrest⟩ := h
    obtain ⟨rfl, hend⟩ := eq_of_preorderAll (fun c hc t xs ys => ih c hc) hmap.2 hrest
    exact ⟨rfl, hend⟩

/-! ## The upper levels -/

/-- The root and `k` levels below it. -/
def prune : ℕ → Rose α → Rose α
  | 0, node a _ => node a []
  | k + 1, node a cs => node a (cs.map (prune k))

@[simp] theorem value_prune (k : ℕ) (t : Rose α) : (t.prune k).value = t.value := by
  cases t
  cases k <;> rfl

/-! ## Local conditions -/

/-- `R` holds between the value of every node and those of its children. -/
inductive Each (R : α → List α → Prop) : Rose α → Prop
  | node {a : α} {cs : List (Rose α)} (root : R a (cs.map value)) (below : ∀ c ∈ cs, Each R c) :
    Each R (node a cs)

variable {R S : α → List α → Prop}

theorem each_node_iff {a : α} {cs : List (Rose α)} :
    (node a cs).Each R ↔ R a (cs.map value) ∧ ∀ c ∈ cs, c.Each R := by
  constructor
  · rintro ⟨hroot, hbelow⟩
    exact ⟨hroot, hbelow⟩
  · rintro ⟨hroot, hbelow⟩
    exact .node hroot hbelow

theorem Each.at_root {t : Rose α} (h : t.Each R) : R t.value (t.children.map value) := by
  cases h with
  | node root => exact root

theorem Each.child {t c : Rose α} (h : t.Each R) (hc : c ∈ t.children) : c.Each R := by
  cases h with
  | node _ below => exact below c hc

/-! ## Subtrees -/

/-- `u` is the subtree `k` levels down at some place of `t`. -/
inductive At : ℕ → Rose α → Rose α → Prop
  | here (t : Rose α) : At 0 t t
  | down {k : ℕ} {t c u : Rose α} (child : c ∈ t.children) (below : At k c u) : At (k + 1) t u

end Rose
