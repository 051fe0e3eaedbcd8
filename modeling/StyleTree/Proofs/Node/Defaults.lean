import StyleTree.Proofs.Node.Members

namespace StyleTree

open Json

def Field.default? : Field → Option Json
  | .text => none
  | .value => some .null
  | .important => some (.bool false)
  | .params => some (.string "")
  | .overlay => some (.object [])
  | .nodes => some (.array [])
  | .span => some .null

namespace Draft

/-- Two drafts have the same of a field, where what is left out counts as what is taken for it. -/
def Alike (d e : Draft) : Field → Prop
  | .text => d.text = e.text
  | .value => d.value.getD none = e.value.getD none
  | .important => d.important.getD false = e.important.getD false
  | .params => d.params.getD "" = e.params.getD ""
  | .overlay => d.overlay.getD .empty = e.overlay.getD .empty
  | .nodes => d.nodes.getD [] = e.nodes.getD []
  | .span => d.span.getD none = e.span.getD none

variable {d e e' : Draft} {f : Field}

theorem Agree.alike (h : d.Agree e f) : d.Alike e f := by
  cases f with
  | text => exact h
  | _ => exact congrArg (Option.getD · _) h

theorem Alike.trans (h : d.Alike e f) (h' : e.Alike e' f) : d.Alike e' f := by
  cases f <;> exact Eq.trans h h'

theorem Alike.symm (h : d.Alike e f) : e.Alike d f := by
  cases f <;> exact Eq.symm h

theorem finish_take (alike : e.Alike d f) (k : Kind) (missing : String → Refusal) :
    (d.take e f).finish k missing = d.finish k missing := by
  have text : (d.take e f).text = d.text := by
    cases f with
    | text => exact alike
    | _ => rfl
  have node (s : String) : (d.take e f).node s k = d.node s k := by
    cases f <;> first | rfl | (cases k <;> simp only [Draft.node, take] <;> rw [alike])
  simp only [finish, text, node]

end Draft

namespace Node

variable {k : Kind} {f : Field} {j j' : Json} {n : Node} {name : String}
  {before after : List (String × Json)}

theorem readField_default (taken : f.default? = some j) :
    ∃ e, readField {} f j = .ok e ∧ e.Alike {} f := by
  cases f with
  | text => cases taken
  | _ =>
      cases taken
      exact ⟨_, rfl, rfl⟩

theorem given_insert (isField : (name, f) ∈ k.fields) (j : Json)
    (before after : List (String × Json)) :
    given k f (before ++ (name, j) :: after) = given k f before ++ j :: given k f after := by
  rw [given, valuesOf_append, valuesOf_cons, if_pos (k.lookup_of_mem _ isField)]
  rfl

theorem given_insert_of_ne {g : Field} (isField : (name, f) ∈ k.fields) (other : g ≠ f) (j : Json)
    (before after : List (String × Json)) :
    given k g (before ++ (name, j) :: after) = given k g (before ++ after) := by
  refine valuesOf_insert ?_ j before after
  rw [k.lookup_of_mem _ isField]
  exact fun same => other (Option.some.inj same).symm

theorem given_insert_unknown (unknown : k.fields.lookup name = none) (j : Json)
    (before after : List (String × Json)) :
    given k f (before ++ (name, j) :: after) = given k f (before ++ after) :=
  valuesOf_insert (by simp [unknown]) j before after

theorem given_perm {members others : List (String × Json)} (perm : members.Perm others) :
    (given k f members).Perm (given k f others) := valuesOf_perm perm

theorem given_append (before after : List (String × Json)) :
    given k f (before ++ after) = given k f before ++ given k f after :=
  valuesOf_append before after

theorem only_of_readMembers {d : Draft} (isField : (name, f) ∈ k.fields)
    (read : readMembers k {} (before ++ (name, j) :: after) = .ok d) :
    given k f before = [] ∧ given k f after = [] ∧
      ∃ e, readField {} f j = .ok e ∧ d.Agree e f := by
  have field := readMembers_iff.1 read f
  rw [given_insert isField] at field
  rcases field with ⟨impossible, -⟩ | ⟨-, j₀, e, only, told, agree⟩
  · simp at impossible
  · obtain ⟨none, only⟩ | ⟨-, impossible⟩ := List.append_eq_singleton_iff.1 only
    · obtain ⟨rfl, none'⟩ := List.cons_eq_cons.1 only
      exact ⟨none, none', e, told, agree⟩
    · cases impossible

theorem ofMembers_fill (isField : (name, f) ∈ k.fields) (taken : f.default? = some j)
    (absent : given k f (before ++ after) = []) (read : ofMembers k (before ++ after) = .ok n) :
    ofMembers k (before ++ (name, j) :: after) = .ok n := by
  obtain ⟨d, members, finished⟩ := ok_of_bind read
  obtain ⟨e, told, alike⟩ := readField_default taken
  have agree : d.Agree {} f := by
    rcases readMembers_iff.1 members f with ⟨-, agree⟩ | ⟨-, _, _, some, -⟩
    · exact agree
    · cases absent.symm.trans some
  rw [given_append] at absent
  obtain ⟨none, none'⟩ := List.append_eq_nil_iff.1 absent
  have field : FieldRead {} (given k f (before ++ (name, j) :: after)) e f := by
    rw [given_insert isField, none, none']
    exact .inr ⟨by cases f <;> rfl, j, e, rfl, told, .refl e f⟩
  have filled := readMembers_take (fun g other => given_insert_of_ne isField other j before after)
    field members
  rw [ofMembers, filled]
  exact (Draft.finish_take (alike.trans agree.alike.symm) k _).trans finished

theorem ofMembers_drop (isField : (name, f) ∈ k.fields) (taken : f.default? = some j)
    (read : ofMembers k (before ++ (name, j) :: after) = .ok n) :
    ofMembers k (before ++ after) = .ok n := by
  obtain ⟨d, members, finished⟩ := ok_of_bind read
  obtain ⟨none, none', e, told, agree⟩ := only_of_readMembers isField members
  obtain ⟨_, told', alike⟩ := readField_default taken
  cases told.symm.trans told'
  have field : FieldRead {} (given k f (before ++ after)) {} f := by
    rw [given_append, none, none']
    exact .inl ⟨rfl, .refl _ f⟩
  have dropped := readMembers_take
    (fun g other => (given_insert_of_ne isField other j before after).symm) field members
  rw [ofMembers, dropped]
  exact (Draft.finish_take (agree.alike.trans alike).symm k _).trans finished

theorem readMembers_exchange {d e : Draft} (isField : (name, f) ∈ k.fields)
    (told : readField {} f j' = .ok e)
    (read : readMembers k {} (before ++ (name, j) :: after) = .ok d) :
    readMembers k {} (before ++ (name, j') :: after) = .ok (d.take e f) := by
  obtain ⟨none, none', -⟩ := only_of_readMembers isField read
  have field : FieldRead {} (given k f (before ++ (name, j') :: after)) e f := by
    rw [given_insert isField, none, none']
    exact .inr ⟨by cases f <;> rfl, j', e, rfl, told, .refl e f⟩
  have others (g : Field) (other : g ≠ f) : given k g (before ++ (name, j') :: after) =
      given k g (before ++ (name, j) :: after) := by
    rw [given_insert_of_ne isField other, given_insert_of_ne isField other]
  exact readMembers_take others field read

theorem ofMembers_member (isField : (name, f) ∈ k.fields)
    (inside : ∀ e, readField {} f j = .ok e → readField {} f j' = .ok e)
    (read : ofMembers k (before ++ (name, j) :: after) = .ok n) :
    ofMembers k (before ++ (name, j') :: after) = .ok n := by
  obtain ⟨d, members, finished⟩ := ok_of_bind read
  obtain ⟨-, -, e, told, agree⟩ := only_of_readMembers isField members
  rw [ofMembers, readMembers_exchange isField (inside e told) members]
  exact (Draft.finish_take agree.alike.symm k _).trans finished

theorem ofMembers_congr {members others : List (String × Json)}
    (same : ∀ f, (given k f members).Perm (given k f others))
    (read : ofMembers k members = .ok n) : ofMembers k others = .ok n := by
  obtain ⟨d, fields, finished⟩ := ok_of_bind read
  rw [ofMembers, readMembers_congr same fields]
  exact finished

end Node
end StyleTree
