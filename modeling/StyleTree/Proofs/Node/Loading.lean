import StyleTree.Proofs.Json.Writing
import StyleTree.Proofs.Node.Roots

namespace StyleTree

open Json

namespace Node

mutual

def height : Node → Nat
  | .leaf _ => 1
  | .block _ children => heights children + 1

def heights : List Node → Nat
  | [] => 0
  | n :: rest => max n.height (heights rest)

end

theorem nestings_spanMembers (span : Option Span) : memberNestings (spanMembers span) ≤ 1 := by
  cases span with
  | none => exact Nat.zero_le 1
  | some s => exact Nat.le_refl 1

theorem nesting_setting (s : Setting) : nesting s.toJson = 0 := by
  cases s <;> rfl

theorem nesting_overlay (o : Overlay) : nesting o.toJson = 1 := by
  have flat (entries : List (String × Setting)) :
      memberNestings (entries.map fun e => (e.1, e.2.toJson)) = 0 := by
    induction entries with
    | nil => rfl
    | cons e rest ih =>
        rw [List.map_cons, memberNestings, nesting_setting, ih]
        rfl
  rw [Overlay.toJson, nesting, flat]

theorem nestings_leaf (l : Leaf) : memberNestings l.members ≤ 1 := by
  cases l with
  | declaration d =>
      have span := nestings_spanMembers d.span
      cases value : d.value <;> simpa [Leaf.members, memberNestings, nesting, value] using span
  | comment text span =>
      have span := nestings_spanMembers span
      simpa [Leaf.members, memberNestings, nesting] using span

theorem nestings_head (head : Head) (items : List Json) :
    memberNestings (head.members (.array items)) = nestings items + 1 := by
  cases head with
  | rule selector span =>
      have span := nestings_spanMembers span
      simp only [Head.members, memberNestings, nesting]
      omega
  | atRule name params span =>
      have span := nestings_spanMembers span
      simp only [Head.members, memberNestings, nesting]
      omega
  | context overlay => simp [Head.members, memberNestings, nesting, nesting_overlay]
  | atRoot => simp [Head.members, memberNestings, nesting]

theorem nesting_toJson (n : Node) : nesting n.toJson = memberNestings n.fieldMembers + 1 := by
  rw [toJson_eq, nesting, Kind.member, memberNestings, nesting, Nat.zero_max]

mutual

-- a level is an object in a list and takes two brackets; a leaf at the last one may take one
theorem nesting_height : (n : Node) →
    2 * n.height ≤ nesting n.toJson + 1 ∧ nesting n.toJson ≤ 2 * n.height
  | .leaf l => by
      have flat := nestings_leaf l
      rw [nesting_toJson, height, fieldMembers]
      omega
  | .block head children => by
      have inner := nestings_heights children
      rw [nesting_toJson, height, fieldMembers, nestings_head]
      omega

theorem nestings_heights : (nodes : List Node) →
    2 * heights nodes ≤ nestings (toJsonList nodes) + 1 ∧
      nestings (toJsonList nodes) ≤ 2 * heights nodes
  | [] => by
      rw [toJsonList, nestings, heights]
      omega
  | n :: rest => by
      have first := nesting_height n
      have later := nestings_heights rest
      rw [toJsonList, nestings, heights]
      omega

end

theorem whole_offset (n : UInt32) : Whole (.number (.natural n.toNat)) := by
  have bound : n.toNat < 1 <<< 32 := n.toNat_lt
  have room : 1 <<< 32 ≤ Scan.largestNatural := by decide
  exact Nat.le_trans (Nat.le_of_lt bound) room

theorem whole_spanMembers (span : Option Span) : WholeMembers (spanMembers span) := by
  cases span with
  | none => trivial
  | some s => exact ⟨⟨whole_offset s.start, whole_offset s.stop, trivial⟩, trivial⟩

theorem whole_overlay (o : Overlay) : Whole o.toJson := by
  have flat (entries : List (String × Setting)) :
      WholeMembers (entries.map fun e => (e.1, e.2.toJson)) := by
    induction entries with
    | nil => trivial
    | cons e rest ih =>
        obtain ⟨key, value⟩ := e
        cases value <;> exact ⟨trivial, ih⟩
  exact flat o.entries

mutual

theorem whole_fieldMembers : (n : Node) → WholeMembers n.fieldMembers
  | .leaf (.declaration ⟨_, none, _, span⟩) => ⟨trivial, trivial, whole_spanMembers span⟩
  | .leaf (.declaration ⟨_, some _, _, span⟩) => ⟨trivial, trivial, trivial, whole_spanMembers span⟩
  | .leaf (.comment _ span) => ⟨trivial, whole_spanMembers span⟩
  | .block (.rule _ span) children =>
      ⟨trivial, whole_toJsonList children, whole_spanMembers span⟩
  | .block (.atRule _ _ span) children =>
      ⟨trivial, trivial, whole_toJsonList children, whole_spanMembers span⟩
  | .block (.context overlay) children =>
      ⟨whole_overlay overlay, whole_toJsonList children, trivial⟩
  | .block .atRoot children => ⟨whole_toJsonList children, trivial⟩

theorem whole_toJsonList : (nodes : List Node) → WholeItems (toJsonList nodes)
  | [] => trivial
  | n :: rest => by
      have first := whole_fieldMembers n
      rw [toJsonList, toJson_eq]
      exact ⟨⟨trivial, first⟩, whole_toJsonList rest⟩

end

end Node

theorem Node.tagIsText_toJson (n : Node) : TagIsText n.toJson := by
  have others : valuesOf (· = "kind") n.fieldMembers = [] := by
    simpa [valuesOf] using n.fieldMembers_ne
  rw [toJson_eq, TagIsText, tags, Kind.member, valuesOf_cons, if_pos rfl, others]
  simp

theorem Node.tagsAreText (nodes : List Node) : ∀ j ∈ toJsonList nodes, TagIsText j := by
  induction nodes with
  | nil => nofun
  | cons n rest ih =>
      rw [toJsonList]
      exact List.forall_mem_cons.2 ⟨n.tagIsText_toJson, ih⟩

theorem fits_iff (nodes : List Node) :
    nesting (.array (Node.toJsonList nodes)) ≤ nestingLimit ↔ Node.heights nodes ≤ 63 := by
  have bounds := Node.nestings_heights nodes
  rw [nesting, nestingLimit]
  omega

theorem whole_tree (nodes : List Node) : Whole (.array (Node.toJsonList nodes)) :=
  Node.whole_toJsonList nodes

theorem parseTree_text {l : Layout} (bare : l.Bare) {nodes : List Node} {source : String}
    (saved : source = Json.text l (.array (Node.toJsonList nodes))) :
    (Node.heights nodes ≤ 63 → parseTree source = .ok nodes) ∧
    (63 < Node.heights nodes → ∃ f : Fault,
      parseTree source = .error (.tree (.fault f) source) ∧
        f.cause = .nestingLimit ∧ (Failure.fault f).category = .malformed) := by
  have spelled := saved ▸ spelled_text bare (whole_tree nodes)
  have reads := (reads_tree spelled (Node.tagsAreText nodes)
    (Node.ofJsonList_toJsonList nodes)).of_iff (fits_iff nodes)
  rw [parseTree]
  rcases reads with ⟨low, read⟩ | ⟨high, _, read, f, rfl, limited⟩
  · rw [read]
    exact ⟨fun _ => rfl, fun high => by omega⟩
  · rw [read]
    refine ⟨fun low => by omega, fun _ => ⟨f, rfl, limited, ?_⟩⟩
    have limited : f.cause = .nestingLimit := limited
    rw [Failure.category, limited]
    rfl

/-- A saved tree is loaded again. The result is the same tree if no node stands more than 63 levels
deep, the roots at the first level; otherwise the text is refused for its nesting. -/
theorem parseTree_toJson (nodes : List Node) :
    (Node.heights nodes ≤ 63 → parseTree (toJson nodes) = .ok nodes) ∧
    (63 < Node.heights nodes → ∃ f : Fault,
      parseTree (toJson nodes) = .error (.tree (.fault f) (toJson nodes)) ∧
        f.cause = .nestingLimit ∧ (Failure.fault f).category = .malformed) :=
  parseTree_text bare_indented rfl

theorem eq_of_text {l l' : Layout} (bare : l.Bare) (bare' : l'.Bare) {a b : List Node}
    (same : Json.text l (.array (Node.toJsonList a)) = Json.text l' (.array (Node.toJsonList b))) :
    a = b := by
  have spelled := spelled_text bare (whole_tree a)
  have spelled' := spelled_text bare' (whole_tree b)
  rw [same] at spelled
  have values : Node.toJsonList a = Node.toJsonList b := Json.array.inj (spelled.unique spelled')
  have decoded := Node.ofJsonList_toJsonList a
  rw [values, Node.ofJsonList_toJsonList] at decoded
  exact (Except.ok.inj decoded).symm

/-- Trees are saved as the same text only if they are equal, also those that stand too high to be
loaded again. -/
theorem toJson_inj (a b : List Node) : toJson a = toJson b ↔ a = b :=
  ⟨eq_of_text bare_indented bare_indented, congrArg toJson⟩

end StyleTree
