import StyleTree.Overlay
import Mathlib.Data.List.Basic
import Mathlib.Data.List.Perm.Basic

namespace StyleTree.Overlay

theorem lookup_eq_some_iff {entries : List (String × Setting)}
    (increasing : entries.Pairwise fun a b => a.1 < b.1) {key : String} {value : Setting} :
    entries.lookup key = some value ↔ (key, value) ∈ entries := by
  induction entries with
  | nil => simp
  | cons entry rest ih =>
      obtain ⟨k, v⟩ := entry
      have ⟨below, increasing⟩ := List.pairwise_cons.1 increasing
      rw [lookup_entry, List.mem_cons, Prod.mk.injEq]
      by_cases same : key = k
      · subst same
        have absent : (key, value) ∉ rest := fun member =>
          String.lt_irrefl key (below (key, value) member)
        simp [absent, eq_comm]
      · rw [if_neg same, ih increasing]
        simp [same]

theorem ext {o o' : Overlay} (same : ∀ key, o.get? key = o'.get? key) : o = o' := by
  obtain ⟨entries, increasing⟩ := o
  obtain ⟨entries', increasing'⟩ := o'
  have distinct {entries : List (String × Setting)}
      (increasing : entries.Pairwise fun a b => a.1 < b.1) : entries.Nodup :=
    increasing.imp fun less => by
      rintro rfl
      exact String.lt_irrefl _ less
  have perm : entries.Perm entries' := by
    rw [List.perm_ext_iff_of_nodup (distinct increasing) (distinct increasing')]
    rintro ⟨key, value⟩
    rw [← lookup_eq_some_iff increasing, ← lookup_eq_some_iff increasing']
    exact iff_of_eq (congrArg (· = some value) (same key))
  have equal : entries = entries' := perm.eq_of_pairwise
    (fun _ _ _ _ less more => absurd more (String.lt_asymm less)) increasing increasing'
  simp only [equal]

theorem insert_comm (o : Overlay) {key key' : String} (differ : key ≠ key')
    (value value' : Setting) :
    (o.insert key value).insert key' value' = (o.insert key' value').insert key value := by
  refine ext fun k => ?_
  simp only [get?_insert]
  split
  · next same => rw [if_neg (same ▸ differ.symm)]
  · rfl

theorem merge_assoc (a b c : Overlay) : (a.merge b).merge c = a.merge (b.merge c) := by
  refine ext fun key => ?_
  simp only [get?_merge, Option.or_assoc]

theorem merge_empty (o : Overlay) : o.merge .empty = o := rfl

theorem empty_merge (o : Overlay) : empty.merge o = o := by
  refine ext fun key => ?_
  rw [get?_merge, get?_empty, Option.or_none]

instance : Std.Associative merge := ⟨merge_assoc⟩

end StyleTree.Overlay
