import StyleTree.Node.Encode
import StyleTree.Node.Decode
import Mathlib.Data.List.Basic

namespace StyleTree

theorem Overlay.place_last {key : String} {entries : List (String × Setting)}
    (above : ∀ e ∈ entries, e.1 < key) (value : Setting) :
    place key value entries = entries ++ [(key, value)] := by
  induction entries with
  | nil => rfl
  | cons entry rest ih =>
      have less := above entry List.mem_cons_self
      have later := ih fun e member => above e (List.mem_cons_of_mem entry member)
      rw [place, if_neg (Std.ne_of_lt less).symm, if_neg (String.lt_asymm less), later,
        List.cons_append]

theorem Json.asSetting_toJson (s : Setting) : s.toJson.asSetting = .ok s := by
  cases s <;> rfl

theorem Json.settings_entries (o : Overlay) {rest : List (String × Setting)}
    (increasing : (o.entries ++ rest).Pairwise fun a b => a.1 < b.1) :
    settings o (rest.map fun e => (e.1, e.2.toJson)) = .ok ⟨o.entries ++ rest, increasing⟩ := by
  induction rest generalizing o with
  | nil => simp [settings]
  | cons entry rest ih =>
      obtain ⟨key, value⟩ := entry
      have above : ∀ e ∈ o.entries, e.1 < key := fun e member =>
        (List.pairwise_append.1 increasing).2.2 e member _ List.mem_cons_self
      have inserted : (o.insert key value).entries = o.entries ++ [(key, value)] :=
        Overlay.place_last above value
      have later := ih (o.insert key value) (by rwa [inserted, List.append_assoc])
      rw [List.map_cons, settings, asSetting_toJson]
      refine later.trans ?_
      simp only [inserted, List.append_assoc, List.cons_append, List.nil_append]

theorem Json.asOverlay_toJson (o : Overlay) : o.toJson.asOverlay = .ok o :=
  settings_entries .empty o.increasing

theorem Json.asOffset_natural (n : UInt32) : (Json.number (.natural n.toNat)).asOffset = .ok n := by
  have fits : n.toNat < 1 <<< 32 := n.toNat_lt
  rw [asOffset, if_pos fits]
  simp

theorem Span.ofJson_toJson (s : Span) : ofJson s.toJson = .ok s := by
  rw [toJson, ofJson, ofMembers, if_pos rfl, Json.asOffset_natural]
  simp [bind, Except.bind, ofMembers, Json.asOffset_natural]

theorem Span.asOptional_toJson (s : Span) : s.toJson.asOptional ofJson = .ok (some s) := by
  have read := ofJson_toJson s
  rw [toJson] at read ⊢
  rw [Json.asOptional, read]
  · rfl
  · nofun

theorem Kind.ofJson_tag (k : Kind) : ofJson (.string k.tag) = .ok k := by
  rw [ofJson, ofTag, ofTag?_tag]

namespace Node

variable {k : Kind} {d d' : Draft} {name : String} {j : Json} {rest : List (String × Json)}

theorem readMembers_field {field : Field} (isField : k.fields.lookup name = some field)
    (new : d.has field = false) (read : readField d field j = .ok d') :
    readMembers k d ((name, j) :: rest) = readMembers k d' rest := by
  rw [readMembers, isField]
  simp [new, read, Except.bind]

theorem readMembers_tag : readMembers k d (k.member :: rest) = readMembers k d rest := by
  cases k <;> rfl

theorem readMembers_span (isField : k.fields.lookup "src" = some .span) (new : d.span = none)
    (span : Option Span) :
    readMembers k d (spanMembers span) = .ok { d with span := span.map some } := by
  cases span with
  | none =>
      rw [Option.map_none, ← new]
      rfl
  | some s =>
      have read : readField d .span s.toJson = .ok { d with span := some (some s) } := by
        rw [readField, s.asOptional_toJson]
        rfl
      exact readMembers_field isField (by simp [Draft.has, new]) read

theorem ofMembers_leaf (l : Leaf) : ofMembers l.kind l.members = .ok (.leaf l) := by
  cases l with
  | declaration d =>
      obtain ⟨property, value, important, span⟩ := d
      have read (d : Draft) (new : d.important = none) (unplaced : d.span = none) :
          readMembers .declaration d (("important", .bool important) :: spanMembers span) =
            .ok { d with important := some important, span := span.map some } := by
        let d' : Draft := { d with important := some important }
        have marked : readField d .important (.bool important) = .ok d' := rfl
        rw [readMembers_field rfl (by simp [Draft.has, new]) marked]
        exact readMembers_span (k := .declaration) (d := d') rfl unplaced span
      rw [Leaf.kind, ofMembers, Leaf.members, readMembers_field rfl rfl rfl]
      cases value with
      | none =>
          rw [Option.map_none, Option.toList_none, List.nil_append, read _ rfl rfl]
          cases span <;> rfl
      | some v =>
          rw [Option.map_some, Option.toList_some, List.cons_append, List.nil_append,
            readMembers_field rfl rfl rfl, read _ rfl rfl]
          cases span <;> rfl
  | comment text span =>
      rw [Leaf.kind, ofMembers, Leaf.members, readMembers_field rfl rfl rfl,
        readMembers_span (k := .comment) rfl rfl]
      cases span <;> rfl

theorem ofMembers_head (head : Head) {items : List Json} {children : List Node}
    (read : ofJsonList items = .ok children) :
    ofMembers head.kind (head.members (.array items)) = .ok (.block head children) := by
  have nodes (d : Draft) :
      readField d .nodes (.array items) = .ok { d with nodes := some children } := by
    rw [readField, read]
    rfl
  cases head with
  | rule selector span =>
      rw [Head.kind, ofMembers, Head.members, readMembers_field rfl rfl rfl,
        readMembers_field rfl rfl (nodes _), readMembers_span rfl rfl]
      cases span <;> rfl
  | atRule name params span =>
      rw [Head.kind, ofMembers, Head.members, readMembers_field rfl rfl rfl,
        readMembers_field rfl rfl rfl, readMembers_field rfl rfl (nodes _),
        readMembers_span rfl rfl]
      cases span <;> rfl
  | context overlay =>
      have read : readField {} .overlay overlay.toJson = .ok { overlay := some overlay } := by
        rw [readField, Json.asOverlay_toJson]
        rfl
      rw [Head.kind, ofMembers, Head.members, readMembers_field rfl rfl read,
        readMembers_field rfl rfl (nodes _)]
      rfl
  | atRoot =>
      rw [Head.kind, ofMembers, Head.members, readMembers_field rfl rfl (nodes _)]
      rfl

def fieldMembers : Node → List (String × Json)
  | .leaf l => l.members
  | .block head children => head.members (.array (toJsonList children))

theorem toJson_eq (n : Node) : n.toJson = .object (n.kind.member :: n.fieldMembers) := by
  cases n <;> rw [toJson] <;> rfl

theorem spanMembers_ne (span : Option Span) : ∀ e ∈ spanMembers span, e.1 ≠ "kind" := by
  cases span <;> simp [spanMembers]

theorem fieldMembers_ne (n : Node) : ∀ e ∈ n.fieldMembers, e.1 ≠ "kind" := by
  match n with
  | .leaf (.declaration ⟨property, value, important, span⟩) =>
      have others := spanMembers_ne span
      cases value <;> simpa [fieldMembers, Leaf.members] using others
  | .leaf (.comment text span) =>
      have others := spanMembers_ne span
      simpa [fieldMembers, Leaf.members] using others
  | .block (.rule selector span) children =>
      have others := spanMembers_ne span
      simpa [fieldMembers, Head.members] using others
  | .block (.atRule name params span) children =>
      have others := spanMembers_ne span
      simpa [fieldMembers, Head.members] using others
  | .block (.context overlay) children => simp [fieldMembers, Head.members]
  | .block .atRoot children => simp [fieldMembers, Head.members]

theorem kindOf_some {members : List (String × Json)} (other : ∀ e ∈ members, e.1 ≠ "kind") :
    kindOf (some k) members = .ok k := by
  induction members with
  | nil => rfl
  | cons member rest ih =>
      obtain ⟨name, j⟩ := member
      rw [kindOf, if_neg (other _ List.mem_cons_self)]
      exact ih fun e inside => other e (List.mem_cons_of_mem _ inside)

theorem kindOf_member {members : List (String × Json)} (other : ∀ e ∈ members, e.1 ≠ "kind") :
    kindOf none (k.member :: members) = .ok k := by
  rw [Kind.member, kindOf, if_pos rfl, Kind.ofJson_tag]
  exact kindOf_some other

theorem ofJson_of_members {n : Node} (read : ofMembers n.kind n.fieldMembers = .ok n) :
    ofJson n.toJson = .ok n := by
  rw [toJson_eq, ofJson_object, kindOf_member n.fieldMembers_ne, Except.bind, ofMembers,
    readMembers_tag]
  exact read

mutual

theorem ofJson_toJson : (n : Node) → ofJson n.toJson = .ok n
  | .leaf l => ofJson_of_members (ofMembers_leaf l)
  | .block head children =>
      ofJson_of_members (ofMembers_head head (ofJsonList_toJsonList children))

theorem ofJsonList_toJsonList : (nodes : List Node) → ofJsonList (toJsonList nodes) = .ok nodes
  | [] => by rw [toJsonList, ofJsonList]
  | n :: rest => by
      rw [toJsonList, ofJsonList, ofJson_toJson n, ofJsonList_toJsonList rest]
      rfl

end

end Node
end StyleTree
