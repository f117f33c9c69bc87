import Mathlib

/-! Logs that only grow: one log extends another by entries that all satisfy a property. -/

namespace AppendLog
universe u
variable {ε : Type u}

/-- `m` is `l` followed by entries that satisfy `P`. -/
def Extends (P : ε → Prop) (l m : List ε) : Prop := ∃ es, m = l ++ es ∧ ∀ e ∈ es, P e

namespace Extends
variable {P Q R : ε → Prop} {l m n : List ε}

theorem refl (P : ε → Prop) (l : List ε) : Extends P l l :=
  ⟨[], (List.append_nil l).symm, fun _ h => (nomatch h)⟩

theorem trans (h : Extends P l m) (h' : Extends P m n) : Extends P l n := by
  obtain ⟨es, rfl, hes⟩ := h
  obtain ⟨fs, rfl, hfs⟩ := h'
  refine ⟨es ++ fs, List.append_assoc _ _ _, fun e he => ?_⟩
  exact (List.mem_append.1 he).elim (hes e) (hfs e)

theorem append (h : Extends P l m) {e : ε} (he : P e) : Extends P l (m ++ [e]) :=
  h.trans ⟨[e], rfl, fun _ h => List.mem_singleton.1 h ▸ he⟩

theorem mono (h : Extends P l m) (hPQ : ∀ e, P e → Q e) : Extends Q l m := by
  obtain ⟨es, rfl, hes⟩ := h
  exact ⟨es, rfl, fun e he => hPQ e (hes e he)⟩

/-- The property of an extension, read off the entries past the old end. -/
theorem iff_forall_drop (h : Extends Q l m) :
    Extends P l m ↔ ∀ e ∈ m.drop l.length, P e := by
  obtain ⟨es, rfl, _⟩ := h
  rw [List.drop_left]
  refine ⟨?_, fun hes => ⟨es, rfl, hes⟩⟩
  rintro ⟨fs, heq, hfs⟩
  rwa [List.append_cancel_left heq]

theorem trans_iff (h : Extends Q l m) (h' : Extends R m n) :
    Extends P l n ↔ Extends P l m ∧ Extends P m n := by
  refine ⟨?_, fun ⟨hlm, hmn⟩ => hlm.trans hmn⟩
  obtain ⟨es, rfl, _⟩ := h
  obtain ⟨fs, rfl, _⟩ := h'
  rintro ⟨gs, heq, hgs⟩
  rw [List.append_assoc] at heq
  have hall : ∀ e ∈ es ++ fs, P e := List.append_cancel_left heq ▸ hgs
  exact ⟨⟨es, rfl, fun e he => hall e (List.mem_append_left _ he)⟩,
    ⟨fs, rfl, fun e he => hall e (List.mem_append_right _ he)⟩⟩

end Extends

/-- The next entry of a log is determined by any longer one. -/
theorem concat_prefix_inj {l m : List ε} {d e : ε} (hd : l ++ [d] <+: m) (he : l ++ [e] <+: m) :
    d = e := by
  have hlength : (l ++ [d]).length = (l ++ [e]).length := by
    rw [List.length_append, List.length_append, List.length_singleton, List.length_singleton]
  have heq := (List.prefix_of_prefix_length_le hd he hlength.le).eq_of_length hlength
  exact List.singleton_inj.1 (List.append_cancel_left heq)

theorem not_concat_prefix (l : List ε) (e : ε) : ¬ l ++ [e] <+: l := by
  intro h
  have hle := h.length_le
  rw [List.length_append, List.length_singleton] at hle
  omega

/-- Two ways to write a log from a list of causes agree at every point exactly if they agree on
every cause. -/
theorem flatMap_prefixes_iff {α : Type u} (f g : α → List ε) (l : List α) :
    (∀ k, k <+: l → k.flatMap f = k.flatMap g) ↔ ∀ a ∈ l, f a = g a := by
  constructor
  · intro h a ha
    obtain ⟨k, m, rfl⟩ := List.append_of_mem ha
    have hbefore := h k (List.prefix_append _ _)
    have hafter := h (k ++ [a]) ⟨m, by rw [List.append_assoc]; rfl⟩
    rw [List.flatMap_append, List.flatMap_append, hbefore, List.flatMap_singleton,
      List.flatMap_singleton] at hafter
    exact List.append_cancel_left hafter
  · intro h k hk
    exact List.flatMap_congr fun a ha => h a (hk.subset ha)

end AppendLog
