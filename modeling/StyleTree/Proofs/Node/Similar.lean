import StyleTree.Node.Basic

namespace StyleTree

namespace Node

mutual

def unwrap : Node → List Node
  | .leaf l => [.leaf l]
  | .block head children =>
      if head = .context .empty then unwraps children else [.block head (unwraps children)]

def unwraps : List Node → List Node
  | [] => []
  | n :: rest => unwrap n ++ unwraps rest

end

theorem unwraps_append (a b : List Node) : unwraps (a ++ b) = unwraps a ++ unwraps b := by
  induction a with
  | nil => rfl
  | cons n a ih => simp only [List.cons_append, unwraps, ih, List.append_assoc]

def Similar (a b : List Node) : Prop := unwraps a = unwraps b

instance (a b : List Node) : Decidable (Similar a b) :=
  inferInstanceAs (Decidable (unwraps a = unwraps b))

namespace Similar

variable {a a' b b' : List Node}

theorem symm (similar : Similar a b) : Similar b a := Eq.symm similar

theorem trans (similar : Similar a b) (similar' : Similar b b') : Similar a b' :=
  Eq.trans similar similar'

theorem append (similar : Similar a a') (similar' : Similar b b') :
    Similar (a ++ b) (a' ++ b') := by
  rw [Similar, unwraps_append, unwraps_append, similar, similar']

theorem neutral (children rest : List Node) :
    Similar (.context .empty children :: rest) (children ++ rest) := by
  rw [Similar, unwraps, context, unwrap, if_pos rfl, unwraps_append]

theorem wrapped (children : List Node) : Similar [.context .empty children] children := by
  have similar := neutral children []
  rwa [List.append_nil] at similar

end Similar

inductive Alike : Node → Node → Prop where
  | leaf (l : Leaf) : Alike (.leaf l) (.leaf l)
  | block (head : Head) {children children' : List Node} (similar : Similar children children') :
      Alike (.block head children) (.block head children')

def Solid : Node → Prop
  | .leaf _ => True
  | .block head _ => head ≠ .context .empty

theorem Solid.of_kind {n : Node} (kind : n.kind ≠ .context) : n.Solid := by
  cases n with
  | leaf => trivial
  | block head children =>
      rintro rfl
      exact kind rfl

theorem Solid.of_overlay {overlay : Overlay} {children : List Node} (other : overlay ≠ .empty) :
    (Node.context overlay children).Solid := fun same => other (Head.context.inj same)

namespace Alike

variable {m n : Node}

theorem bare (alike : m.Alike n) : m.bare = n.bare := by
  cases alike <;> rfl

theorem kind (alike : m.Alike n) : m.kind = n.kind := by
  cases alike <;> rfl

theorem children (alike : m.Alike n) : Similar m.children n.children := by
  cases alike with
  | leaf => rfl
  | block head similar => exact similar

theorem withChildren (alike : m.Alike n) {a b : List Node} (similar : Similar a b) :
    (m.withChildren a).Alike (n.withChildren b) := by
  cases alike with
  | leaf l => exact .leaf l
  | block head _ => exact .block head similar

theorem similar (alike : m.Alike n) : Similar [m] [n] := by
  cases alike with
  | leaf l => rfl
  | block head similar =>
      have same : unwraps _ = unwraps _ := similar
      simp only [Similar, unwraps, unwrap, same]

theorem exists_of_block {head : Head} {a : List Node} (alike : (Node.block head a).Alike n) :
    ∃ b, n = .block head b ∧ Similar a b := by
  cases alike with
  | block _ similar => exact ⟨_, rfl, similar⟩

theorem cons (alike : m.Alike n) {a b : List Node} (similar : Similar a b) :
    Similar (m :: a) (n :: b) := alike.similar.append similar

end Alike

theorem Solid.unwrap {n : Node} (solid : n.Solid) :
    n.unwrap = [n.withChildren (unwraps n.children)] := by
  cases n with
  | leaf => rfl
  | block head children => exact if_neg solid

theorem unwraps_solid {a : List Node} (solid : ∀ n ∈ a, n.Solid) :
    unwraps a = a.map fun n => n.withChildren (unwraps n.children) := by
  induction a with
  | nil => rfl
  | cons n a ih =>
      obtain ⟨solid, solid'⟩ := List.forall_mem_cons.1 solid
      rw [unwraps, solid.unwrap, ih solid', List.map_cons, List.singleton_append]

theorem Alike.of_similar {m n : Node} (similar : Similar [m] [n]) (solid : m.Solid)
    (solid' : n.Solid) : m.Alike n := by
  have same := similar
  simp only [Similar, unwraps, solid.unwrap, solid'.unwrap, List.append_nil] at same
  obtain ⟨same, -⟩ := List.cons.inj same
  cases m with
  | leaf l =>
      cases n with
      | leaf => cases same; exact .leaf l
      | block => cases same
  | block head children =>
      cases n with
      | leaf => cases same
      | block head' children' =>
          obtain ⟨rfl, same⟩ := Node.block.inj same
          exact .block head same

mutual

/-- What stands in the place of a node once it is opened if it is a neutral context, and what comes
to light is opened in turn. No other node is opened. -/
def surface : Node → List Node
  | .leaf l => [.leaf l]
  | .block head children =>
      if head = .context .empty then surfaces children else [.block head children]

def surfaces : List Node → List Node
  | [] => []
  | n :: rest => surface n ++ surfaces rest

end

mutual

theorem unwraps_surface : (n : Node) → unwraps n.surface = n.unwrap
  | .leaf l => rfl
  | .block head children => by
      rw [surface, unwrap]
      split
      · exact unwraps_surfaces children
      · next other => simp only [unwraps, unwrap, if_neg other, List.append_nil]

theorem unwraps_surfaces : (a : List Node) → unwraps (surfaces a) = unwraps a
  | [] => rfl
  | n :: rest => by
      rw [surfaces, unwraps_append, unwraps_surface n, unwraps_surfaces rest, unwraps]

end

mutual

theorem solid_surface : (n : Node) → ∀ m ∈ n.surface, m.Solid
  | .leaf l => by simp [surface, Solid]
  | .block head children => by
      rw [surface]
      split
      · exact solid_surfaces children
      · next other => simpa [Solid] using other

theorem solid_surfaces : (a : List Node) → ∀ m ∈ surfaces a, m.Solid
  | [] => nofun
  | n :: rest => by
      rw [surfaces, List.forall_mem_append]
      exact ⟨solid_surface n, solid_surfaces rest⟩

end

namespace Similar

variable {a a' b : List Node} {n : Node}

theorem surface_nil (similar : Similar [] b) : surfaces b = [] := by
  have same : unwraps (surfaces b) = [] := (unwraps_surfaces b).trans similar.symm
  rwa [unwraps_solid (solid_surfaces b), List.map_eq_nil_iff] at same

theorem surface_append (similar : Similar (a ++ a') b) :
    ∃ b' b'', surfaces b = b' ++ b'' ∧ Similar a b' ∧ Similar a' b'' := by
  have same : unwraps (surfaces b) = unwraps a ++ unwraps a' := by
    rw [unwraps_surfaces, ← similar, unwraps_append]
  rw [unwraps_solid (solid_surfaces b)] at same
  obtain ⟨b', b'', parts, first, second⟩ := List.map_eq_append_iff.1 same
  have solid := solid_surfaces b
  rw [parts, List.forall_mem_append] at solid
  rw [← unwraps_solid solid.1] at first
  rw [← unwraps_solid solid.2] at second
  exact ⟨b', b'', parts, first.symm, second.symm⟩

theorem surface_cons (similar : Similar (n :: a) b) (solid : n.Solid) :
    ∃ n' b', surfaces b = n' :: b' ∧ n.Alike n' ∧ Similar a b' := by
  have similar : Similar ([n] ++ a) b := similar
  obtain ⟨front, b', parts, same, similar⟩ := similar.surface_append
  have solid' := solid_surfaces b
  rw [parts, List.forall_mem_append] at solid'
  have single : [n.withChildren (unwraps n.children)] =
      front.map fun m => m.withChildren (unwraps m.children) := by
    rw [← unwraps_solid solid'.1, ← same, unwraps, unwraps, solid.unwrap, List.append_nil]
  obtain ⟨n', rest, rfl, -, none⟩ := List.map_eq_cons_iff.1 single.symm
  obtain rfl := List.map_eq_nil_iff.1 none
  exact ⟨n', b', parts, .of_similar same solid (solid'.1 n' List.mem_cons_self), similar⟩

theorem surface_neutral {children : List Node}
    (similar : Similar (.context .empty children :: a) b) :
    ∃ b' b'', surfaces b = b' ++ b'' ∧ Similar children b' ∧ Similar a b'' :=
  ((neutral children a).symm.trans similar).surface_append

theorem surface_context {overlay : Overlay} {children : List Node} (other : overlay ≠ .empty)
    (similar : Similar (.context overlay children :: a) b) :
    ∃ children' b', surfaces b = .context overlay children' :: b' ∧ Similar children children' ∧
      Similar a b' := by
  obtain ⟨n, b', parts, same, similar⟩ := similar.surface_cons (.of_overlay other)
  obtain ⟨children', rfl, similar'⟩ := same.exists_of_block
  exact ⟨children', b', parts, similar', similar⟩

theorem surface_node (kind : n.kind ≠ .context) (similar : Similar (n :: a) b) :
    ∃ n' b', surfaces b = n' :: b' ∧ n'.kind ≠ .context ∧ n.Alike n' ∧ Similar a b' := by
  obtain ⟨n', b', parts, same, similar⟩ := similar.surface_cons (.of_kind kind)
  exact ⟨n', b', parts, same.kind ▸ kind, same, similar⟩

end Similar

end Node

end StyleTree
