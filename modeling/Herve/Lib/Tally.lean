import Mathlib

/-! Lists whose entries are found by a key. An update changes the entry with the key; if there
is none, it is applied to a fresh one in front. -/

namespace Tally
universe u v w
variable {α : Type u} {κ : Type v} [DecidableEq κ]

def upsert (key : α → κ) (k : κ) (fresh : α) (f : α → α) (l : List α) : List α :=
  if l.any fun a => key a = k then l.map fun a => if key a = k then f a else a
  else f fresh :: l

variable {key : α → κ} {k : κ} {fresh : α} {f : α → α} {l : List α}

theorem any_key_iff : (l.any fun a => key a = k) = true ↔ k ∈ l.map key := by
  simp only [List.any_eq_true, decide_eq_true_eq, List.mem_map]

theorem map_update_of_notMem (h : k ∉ l.map key) :
    (l.map fun a => if key a = k then f a else a) = l := by
  refine (List.map_congr_left fun a ha => if_neg fun hk => h ?_).trans (List.map_id l)
  exact List.mem_map.2 ⟨a, ha, hk⟩

/-- Among distinct keys the update meets one entry, or none and a fresh one. -/
theorem upsert_cases (k : κ) (fresh : α) (f : α → α) (hnodup : (l.map key).Nodup) :
    (∃ l₁ a l₂, l = l₁ ++ a :: l₂ ∧ key a = k ∧ upsert key k fresh f l = l₁ ++ f a :: l₂) ∨
      k ∉ l.map key ∧ upsert key k fresh f l = f fresh :: l := by
  unfold upsert
  by_cases hk : k ∈ l.map key
  · rw [if_pos (any_key_iff.2 hk)]
    obtain ⟨a, ha, rfl⟩ := List.mem_map.1 hk
    obtain ⟨l₁, l₂, rfl⟩ := List.append_of_mem ha
    rw [List.map_append, List.map_cons, List.nodup_append, List.nodup_cons] at hnodup
    obtain ⟨-, ⟨hnot₂, -⟩, hdisjoint⟩ := hnodup
    have hnot₁ : key a ∉ l₁.map key := fun h => hdisjoint _ h _ List.mem_cons_self rfl
    refine .inl ⟨l₁, a, l₂, rfl, rfl, ?_⟩
    rw [List.map_append, List.map_cons, map_update_of_notMem hnot₁, map_update_of_notMem hnot₂,
      if_pos rfl]
  · rw [if_neg fun h => hk (any_key_iff.1 h)]
    exact .inr ⟨hk, rfl⟩

section
variable (hfresh : key (f fresh) = k) (hkey : ∀ a, key a = k → key (f a) = k)
include hfresh hkey

theorem map_key_upsert :
    (upsert key k fresh f l).map key = if k ∈ l.map key then l.map key else k :: l.map key := by
  unfold upsert
  by_cases hk : k ∈ l.map key
  · rw [if_pos (any_key_iff.2 hk), if_pos hk, List.map_map]
    refine List.map_congr_left fun a _ => ?_
    show key (if key a = k then f a else a) = key a
    split_ifs with ha
    · rw [hkey a ha, ha]
    · rfl
  · rw [if_neg fun h => hk (any_key_iff.1 h), if_neg hk, List.map_cons, hfresh]

theorem nodup_upsert (hnodup : (l.map key).Nodup) :
    ((upsert key k fresh f l).map key).Nodup := by
  rw [map_key_upsert hfresh hkey]
  split_ifs with hk
  · exact hnodup
  · exact List.nodup_cons.2 ⟨hk, hnodup⟩

theorem mem_key_upsert {k' : κ} :
    k' ∈ (upsert key k fresh f l).map key ↔ k' = k ∨ k' ∈ l.map key := by
  rw [map_key_upsert hfresh hkey]
  split_ifs with hk
  · exact ⟨.inr, fun h => h.elim (fun h => h ▸ hk) id⟩
  · exact List.mem_cons

end

theorem map_upsert {β : Type w} {key' : β → κ} {fresh' : β} {f' : β → β} {g : α → β}
    (hkey : ∀ a, key' (g a) = key a) (hf : ∀ a, g (f a) = f' (g a)) (hfresh : g fresh = fresh') :
    (upsert key k fresh f l).map g = upsert key' k fresh' f' (l.map g) := by
  have hany : ((l.map g).any fun b => key' b = k) = l.any fun a => key a = k := by
    rw [List.any_map]
    exact congrArg l.any (funext fun a => by rw [Function.comp_apply, hkey])
  unfold upsert
  rw [hany]
  split_ifs
  · rw [List.map_map, List.map_map]
    refine List.map_congr_left fun a _ => ?_
    rw [Function.comp_apply, Function.comp_apply, hkey, apply_ite g, hf]
  · rw [List.map_cons, hf, hfresh]

theorem forall_upsert {P : α → Prop} (hl : ∀ a ∈ l, P a) (hf : ∀ a, key a = k → P a → P (f a))
    (hfresh : P (f fresh)) : ∀ a ∈ upsert key k fresh f l, P a := by
  unfold upsert
  split_ifs
  · intro b hb
    obtain ⟨a, ha, rfl⟩ := List.mem_map.1 hb
    split_ifs with hk
    · exact hf a hk (hl a ha)
    · exact hl a ha
  · exact List.forall_mem_cons.2 ⟨hfresh, hl⟩

section
variable {M : Type w} [AddCommMonoid M]

/-- The total grows by what the update adds to the entry with the key. -/
theorem sum_upsert {weight : α → M} {d : M} (hnodup : (l.map key).Nodup)
    (hf : ∀ a, key a = k → weight (f a) = weight a + d) (hfresh : weight (f fresh) = d) :
    ((upsert key k fresh f l).map weight).sum = (l.map weight).sum + d := by
  rcases upsert_cases k fresh f hnodup with
    ⟨l₁, a, l₂, rfl, hk, heq⟩ | ⟨_, heq⟩
  · rw [heq, List.map_append, List.map_append, List.map_cons, List.map_cons, List.sum_append,
      List.sum_append, List.sum_cons, List.sum_cons, hf a hk]
    abel
  · rw [heq, List.map_cons, List.sum_cons, hfresh, add_comm]

end

/-! ## The entry with a key -/

section
variable {M : Type w} [AddMonoid M]

/-- What the first entry with the key has, or zero. -/
def valueAt (key : α → κ) (weight : α → M) (k : κ) (l : List α) : M :=
  ((l.find? fun a => key a = k).map weight).getD 0

variable {weight : α → M} {d : M}

theorem valueAt_cons (a : α) (k : κ) :
    valueAt key weight k (a :: l) = if key a = k then weight a else valueAt key weight k l := by
  unfold valueAt
  by_cases h : key a = k
  · rw [List.find?_cons_of_pos (by simpa using h), if_pos h]
    rfl
  · rw [List.find?_cons_of_neg (by simpa using h), if_neg h]

theorem valueAt_of_notMem (h : k ∉ l.map key) : valueAt key weight k l = 0 := by
  induction l with
  | nil => rfl
  | cons a l ih =>
    rw [List.map_cons, List.mem_cons, not_or] at h
    rw [valueAt_cons, if_neg (Ne.symm h.1), ih h.2]

theorem valueAt_of_mem (hnodup : (l.map key).Nodup) {a : α} (ha : a ∈ l) :
    valueAt key weight (key a) l = weight a := by
  induction l with
  | nil => exact absurd ha List.not_mem_nil
  | cons b l ih =>
    rw [List.map_cons, List.nodup_cons] at hnodup
    rw [valueAt_cons]
    rcases List.mem_cons.1 ha with rfl | hmem
    · exact if_pos rfl
    · have hne : key b ≠ key a := fun h => hnodup.1 (h ▸ List.mem_map_of_mem hmem)
      rw [if_neg hne, ih hnodup.2 hmem]

theorem valueAt_map_update (hkey : ∀ a, key (f a) = key a) (hf : ∀ a, weight (f a) = weight a + d)
    {k k' : κ} (h : k ∈ l.map key) :
    valueAt key weight k' (l.map fun a => if key a = k then f a else a) =
      valueAt key weight k' l + if k = k' then d else 0 := by
  induction l with
  | nil => exact absurd h List.not_mem_nil
  | cons a l ih =>
    have hsame : key (if key a = k then f a else a) = key a := by
      split_ifs
      · exact hkey a
      · rfl
    rw [List.map_cons, valueAt_cons, valueAt_cons, hsame]
    by_cases hk' : key a = k'
    · rw [if_pos hk', if_pos hk', apply_ite weight, hf]
      by_cases hk : k = k'
      · rw [if_pos (hk'.trans hk.symm), if_pos hk]
      · rw [if_neg fun h => hk (h.symm.trans hk'), if_neg hk, add_zero]
    · rw [if_neg hk', if_neg hk']
      by_cases hmem : k ∈ l.map key
      · exact ih hmem
      · have hk : key a = k := ((List.mem_cons.1 h).resolve_right hmem).symm
        rw [map_update_of_notMem hmem, if_neg fun h => hk' (hk.trans h), add_zero]

theorem valueAt_upsert (hkey : ∀ a, key (f a) = key a) (hf : ∀ a, weight (f a) = weight a + d)
    (hfresh : key fresh = k) (hzero : weight fresh = 0) (k' : κ) :
    valueAt key weight k' (upsert key k fresh f l) =
      valueAt key weight k' l + if k = k' then d else 0 := by
  unfold upsert
  by_cases h : k ∈ l.map key
  · rw [if_pos (any_key_iff.2 h)]
    exact valueAt_map_update hkey hf h
  · rw [if_neg fun hany => h (any_key_iff.1 hany), valueAt_cons, hkey, hfresh, hf, hzero, zero_add]
    split_ifs with hk
    · rw [← hk, valueAt_of_notMem h, zero_add]
    · exact (add_zero _).symm

end
end Tally
