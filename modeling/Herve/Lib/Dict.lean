import Mathlib

/-! Dictionaries that keep their keys in the order of insertion. -/

namespace Dict
universe u v w
variable {κ : Type u} {ν : Type v} [DecidableEq κ]

/-- Change the value of a key; one that is missing is inserted last, with a default value. -/
def modify (k : κ) (default : ν) (f : ν → ν) : List (κ × ν) → List (κ × ν)
  | [] => [(k, f default)]
  | e :: d => if e.1 = k then (k, f e.2) :: d else e :: modify k default f d

def set (k : κ) (v : ν) : List (κ × ν) → List (κ × ν) := modify k v fun _ => v

variable {k : κ} {d : List (κ × ν)}

theorem modify_of_notMem (h : k ∉ d.map Prod.fst) (default : ν) (f : ν → ν) :
    modify k default f d = d ++ [(k, f default)] := by
  induction d with
  | nil => rfl
  | cons e d ih =>
    rw [List.map_cons, List.mem_cons, not_or] at h
    rw [modify, if_neg (Ne.symm h.1), ih h.2, List.cons_append]

theorem modify_last (h : k ∉ d.map Prod.fst) (default v : ν) (f : ν → ν) :
    modify k default f (d ++ [(k, v)]) = d ++ [(k, f v)] := by
  induction d with
  | nil => exact if_pos rfl
  | cons e d ih =>
    rw [List.map_cons, List.mem_cons, not_or] at h
    rw [List.cons_append, modify, if_neg (Ne.symm h.1), ih h.2, List.cons_append]

theorem set_of_notMem (h : k ∉ d.map Prod.fst) (v : ν) : set k v d = d ++ [(k, v)] :=
  modify_of_notMem h v _

/-! ## Lookup -/

def get (k : κ) (d : List (κ × ν)) : Option ν := (d.find? fun e => e.1 = k).map Prod.snd

theorem get_cons (k : κ) (e : κ × ν) (d : List (κ × ν)) :
    get k (e :: d) = if e.1 = k then some e.2 else get k d := by
  unfold get
  rw [List.find?_cons]
  split_ifs with h
  · rw [decide_eq_true h]
    rfl
  · rw [decide_eq_false h]

theorem get_modify (k k' : κ) (default : ν) (f : ν → ν) (d : List (κ × ν)) :
    get k' (modify k default f d) =
      if k = k' then some (f ((get k d).getD default)) else get k' d := by
  induction d with
  | nil => rw [modify, get_cons]; rfl
  | cons e d ih =>
    rw [modify, get_cons k e]
    by_cases he : e.1 = k
    · rw [if_pos he, if_pos he, get_cons, get_cons, he]
      split_ifs <;> rfl
    · rw [if_neg he, if_neg he, get_cons, get_cons, ih]
      by_cases hk : k = k'
      · rw [if_neg (hk ▸ he), if_pos hk, if_pos hk]
      · rw [if_neg hk, if_neg hk]

theorem keys_modify (k : κ) (default : ν) (f : ν → ν) (d : List (κ × ν)) :
    (modify k default f d).map Prod.fst =
      if k ∈ d.map Prod.fst then d.map Prod.fst else d.map Prod.fst ++ [k] := by
  induction d with
  | nil => rfl
  | cons e d ih =>
    rw [modify]
    by_cases he : e.1 = k
    · rw [if_pos he, if_pos (List.mem_map.2 ⟨e, List.mem_cons_self, he⟩), List.map_cons,
        List.map_cons, he]
    · rw [if_neg he, List.map_cons, ih, List.map_cons]
      have hiff : k ∈ e.1 :: d.map Prod.fst ↔ k ∈ d.map Prod.fst :=
        List.mem_cons.trans (or_iff_right (Ne.symm he))
      rw [if_congr hiff rfl rfl]
      split_ifs <;> rfl

theorem nodup_modify (h : (d.map Prod.fst).Nodup) (k : κ) (default : ν) (f : ν → ν) :
    ((modify k default f d).map Prod.fst).Nodup := by
  rw [keys_modify]
  split_ifs with hk
  · exact h
  · exact List.concat_eq_append ▸ h.concat hk

/-! ## Groups -/

section Groups
variable {γ : Type w} [DecidableEq γ]

/-- Each entry is set in the dictionary of its group. -/
def group (l : List (γ × κ × ν)) : List (γ × List (κ × ν)) :=
  l.foldl (fun groups e => modify e.1 [] (set e.2.1 e.2.2) groups) []

theorem group_concat (l : List (γ × κ × ν)) (e : γ × κ × ν) :
    group (l ++ [e]) = modify e.1 [] (set e.2.1 e.2.2) (group l) := by
  unfold group
  rw [List.foldl_concat]

/-- Entries with different keys stand in their group in the order of the list. -/
theorem get_group {l : List (γ × κ × ν)} (h : (l.map fun e => (e.1, e.2.1)).Nodup) (g : γ) :
    ((get g (group l)).getD []) = (l.filter fun e => e.1 = g).map Prod.snd := by
  induction l using List.reverseRecOn with
  | nil => rfl
  | append_singleton l e ih =>
    rw [List.map_append, List.map_singleton, List.nodup_append_comm, List.singleton_append,
      List.nodup_cons] at h
    rw [group_concat, get_modify, List.filter_append, List.filter_singleton]
    by_cases hg : e.1 = g
    · rw [if_pos hg, hg, Option.getD_some, ih h.2, set_of_notMem]
      · rw [List.map_append, decide_eq_true rfl]
        rfl
      · rintro hmem
        obtain ⟨x, hx, hkey⟩ := List.mem_map.1 hmem
        obtain ⟨y, hy, rfl⟩ := List.mem_map.1 hx
        obtain ⟨hyl, hyg⟩ := List.mem_filter.1 hy
        refine h.1 (List.mem_map.2 ⟨y, hyl, ?_⟩)
        rw [of_decide_eq_true hyg, hkey, hg]
    · rw [if_neg hg, ih h.2]
      rw [decide_eq_false hg, cond_false, List.append_nil]

end Groups

/-! ## Values computed from values -/

section MapValues
variable {μ : Type w}

/-- The values of a dictionary replaced one after the other; the first that fails ends it. -/
def mapValues (f : κ → ν → Option μ) (d : List (κ × ν)) : Option (List (κ × μ)) :=
  d.foldlM (fun acc e => (f e.1 e.2).map fun v => set e.1 v acc) []

theorem foldlM_set {f : κ → ν → Option μ} {g : κ → ν → μ} (h : (d.map Prod.fst).Nodup)
    (hf : ∀ e ∈ d, f e.1 e.2 = some (g e.1 e.2)) {acc : List (κ × μ)}
    (hacc : ∀ e ∈ d, e.1 ∉ acc.map Prod.fst) :
    d.foldlM (fun acc e => (f e.1 e.2).map fun v => set e.1 v acc) acc =
      some (acc ++ d.map fun e => (e.1, g e.1 e.2)) := by
  induction d generalizing acc with
  | nil => rw [List.map_nil, List.append_nil]; rfl
  | cons e d ih =>
    rw [List.map_cons, List.nodup_cons] at h
    rw [List.foldlM_cons, hf e List.mem_cons_self, Option.map_some, Option.bind_eq_bind,
      Option.bind_some, set_of_notMem (hacc e List.mem_cons_self), ih h.2, List.append_assoc]
    · rfl
    · exact fun x hx => hf x (List.mem_cons_of_mem _ hx)
    · intro x hx
      rw [List.map_append, List.mem_append, not_or]
      refine ⟨hacc x (List.mem_cons_of_mem _ hx), fun hkey => h.1 ?_⟩
      rw [← List.mem_singleton.1 hkey]
      exact List.mem_map_of_mem hx

theorem mapValues_eq {f : κ → ν → Option μ} {g : κ → ν → μ} (h : (d.map Prod.fst).Nodup)
    (hf : ∀ e ∈ d, f e.1 e.2 = some (g e.1 e.2)) :
    mapValues f d = some (d.map fun e => (e.1, g e.1 e.2)) :=
  foldlM_set h hf fun _ _ => List.not_mem_nil

theorem foldlM_set_none {f : κ → ν → Option μ} {e : κ × ν} (he : e ∈ d) (hf : f e.1 e.2 = none)
    (acc : List (κ × μ)) :
    d.foldlM (fun acc e => (f e.1 e.2).map fun v => set e.1 v acc) acc = none := by
  induction d generalizing acc with
  | nil => exact absurd he List.not_mem_nil
  | cons x d ih =>
    rw [List.foldlM_cons]
    rcases List.mem_cons.1 he with rfl | hd
    · rw [hf]
      rfl
    · cases f x.1 x.2 with
      | none => rfl
      | some v => exact ih hd _

theorem mapValues_eq_none {f : κ → ν → Option μ} {e : κ × ν} (he : e ∈ d)
    (hf : f e.1 e.2 = none) : mapValues f d = none :=
  foldlM_set_none he hf []

end MapValues

end Dict
