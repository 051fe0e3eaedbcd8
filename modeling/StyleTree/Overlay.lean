/-!
Overlays: finite maps from keys to settings, kept as lists with strictly increasing keys, so that
two overlays with the same lookups are equal. Keys are ordered by code point.
-/

namespace StyleTree

inductive Setting where
  | flag (on : Bool)
  | text (value : String)
  deriving DecidableEq, Inhabited

def Setting.display : Setting → String
  | .flag on => if on then "true" else "false"
  | .text value => value

structure Overlay where
  entries : List (String × Setting)
  increasing : entries.Pairwise fun a b => a.1 < b.1
  deriving DecidableEq

namespace Overlay

def place (key : String) (value : Setting) :
    List (String × Setting) → List (String × Setting)
  | [] => [(key, value)]
  | entry :: rest =>
      if key = entry.1 then (key, value) :: rest
      else if key < entry.1 then (key, value) :: entry :: rest
      else entry :: place key value rest

theorem fst_of_mem_place {key : String} {value : Setting} {entries : List (String × Setting)}
    {e : String × Setting} (h : e ∈ place key value entries) : e.1 = key ∨ e ∈ entries := by
  induction entries with
  | nil => simp_all [place]
  | cons entry rest ih =>
      simp only [place] at h
      split at h
      · rcases List.mem_cons.1 h with rfl | h
        · exact .inl rfl
        · exact .inr (.tail _ h)
      · split at h
        · rcases List.mem_cons.1 h with rfl | h
          · exact .inl rfl
          · exact .inr h
        · rcases List.mem_cons.1 h with rfl | h
          · exact .inr (.head _)
          · exact (ih h).imp id (.tail _)

theorem increasing_place (key : String) (value : Setting) {entries : List (String × Setting)}
    (h : entries.Pairwise fun a b => a.1 < b.1) :
    (place key value entries).Pairwise fun a b => a.1 < b.1 := by
  induction entries with
  | nil => simp [place]
  | cons entry rest ih =>
      have ⟨below, rest'⟩ := List.pairwise_cons.1 h
      simp only [place]
      split
      · next same => exact List.pairwise_cons.2 ⟨fun e he => same ▸ below e he, rest'⟩
      · next differ =>
        split
        · next less =>
          refine List.pairwise_cons.2 ⟨fun e he => ?_, h⟩
          rcases List.mem_cons.1 he with rfl | he
          · exact less
          · exact String.lt_trans less (below e he)
        · next notLess =>
          refine List.pairwise_cons.2 ⟨fun e he => ?_, ih rest'⟩
          rcases fst_of_mem_place he with same | he
          · rw [same]
            exact Std.lt_of_le_of_ne (String.not_lt.1 notLess) (Ne.symm differ)
          · exact below e he

def empty : Overlay := ⟨[], .nil⟩

instance : Inhabited Overlay := ⟨empty⟩

def get? (o : Overlay) (key : String) : Option Setting := o.entries.lookup key

def insert (o : Overlay) (key : String) (value : Setting) : Overlay :=
  ⟨place key value o.entries, increasing_place key value o.increasing⟩

def ofList (entries : List (String × Setting)) : Overlay :=
  entries.foldl (fun o e => o.insert e.1 e.2) empty

def merge (base upper : Overlay) : Overlay :=
  upper.entries.foldl (fun o e => o.insert e.1 e.2) base

@[simp] theorem get?_empty (key : String) : empty.get? key = none := rfl

theorem lookup_entry (key k : String) (v : Setting) (rest : List (String × Setting)) :
    ((k, v) :: rest).lookup key = if key = k then some v else rest.lookup key := by
  by_cases same : key = k
  · simp [same]
  · have differ : (key == k) = false := by simpa using same
    simp [List.lookup_cons, differ, same]

theorem lookup_place (key key' : String) (value : Setting) (entries : List (String × Setting)) :
    (place key value entries).lookup key' =
      if key' = key then some value else entries.lookup key' := by
  induction entries with
  | nil => exact lookup_entry ..
  | cons entry rest ih =>
      obtain ⟨k, v⟩ := entry
      simp only [place]
      split
      · next same =>
        subst same
        simp only [lookup_entry]
        split <;> rfl
      · next differ =>
        split
        · exact lookup_entry ..
        · simp only [lookup_entry, ih]
          split
          · next same => rw [if_neg (same ▸ Ne.symm differ)]
          · rfl

@[simp] theorem get?_insert (o : Overlay) (key key' : String) (value : Setting) :
    (o.insert key value).get? key' = if key' = key then some value else o.get? key' :=
  lookup_place ..

theorem get?_insert_entries (key : String) {entries : List (String × Setting)}
    (increasing : entries.Pairwise fun a b => a.1 < b.1) (base : Overlay) :
    (entries.foldl (fun o e => o.insert e.1 e.2) base).get? key =
      (entries.lookup key).or (base.get? key) := by
  induction entries generalizing base with
  | nil => rfl
  | cons entry rest ih =>
      obtain ⟨k, v⟩ := entry
      have ⟨below, increasing⟩ := List.pairwise_cons.1 increasing
      rw [List.foldl_cons, ih increasing, get?_insert, lookup_entry]
      split
      · next same =>
        subst same
        have absent : rest.lookup key = none := by
          rw [List.lookup_eq_none_iff]
          intro e member
          simpa using Std.ne_of_lt (below e member)
        rw [absent]
        rfl
      · rfl

theorem get?_merge (base upper : Overlay) (key : String) :
    (base.merge upper).get? key = (upper.get? key).or (base.get? key) :=
  get?_insert_entries key upper.increasing base

theorem get?_foldl_merge (overlays : List Overlay) (base : Overlay) (key : String) :
    (overlays.foldl merge base).get? key =
      (overlays.reverse.findSome? (·.get? key)).or (base.get? key) := by
  induction overlays generalizing base with
  | nil => rfl
  | cons o rest ih =>
      rw [List.foldl_cons, ih, get?_merge, List.reverse_cons, List.findSome?_append]
      simp [Option.or_assoc]

end Overlay
end StyleTree
