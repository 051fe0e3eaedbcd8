import StyleTree.Proofs.Walk.Site
import Mathlib.Data.List.Induction

/-!
# Bracketing of hook calls

A ledger follows the hook calls of a walk with a stack of the open nodes: those that were entered
and neither replaced nor exited. It takes a call only if the call fits: the ancestors that a hook
sees are the open nodes, and an exit call is for the node that was opened last.
-/

namespace StyleTree.Walk

universe u
variable {σ : Type u} {v : Visitor σ}

instance : DecidableEq View := fun a b =>
  decidable_of_iff (a.path = b.path ∧ a.depth = b.depth ∧ a.parent? = b.parent? ∧
    a.ambient = b.ambient) View.ext_iff.symm

def Verdict.replaces : Verdict → Bool
  | .replace .. => true
  | _ => false

theorem Verdict.replaces_of_stays {d : Verdict} (stays : d.stays) : d.replaces = false := by
  cases d <;> simp_all [Verdict.stays, Verdict.replaces]

namespace Call

def entered (v : Visitor σ) (c : Call σ) : Entered σ := v.enter c.view c.node c.state

def isEnter (c : Call σ) : Bool := c.hook = .enter

def isExit (c : Call σ) : Bool := c.hook = .exit

def splices (v : Visitor σ) (c : Call σ) : Bool := c.isEnter && (c.entered v).verdict.replaces

end Call

/-- An open node, as the enter hook left it, with the place of the enter call among all calls. -/
structure Open where
  place : Nat
  view : View
  node : Node
  verdict : Verdict

def Call.opening (v : Visitor σ) (c : Call σ) (place : Nat) : Open :=
  ⟨place, c.view, (c.entered v).node, (c.entered v).verdict⟩

/-- The open nodes, the latest one first, are the ancestors of a view. Each of them descended into
its children, so that nothing is seen below a skipped node. -/
structure Fits (opened : List Open) (view : View) : Prop where
  path : view.path = (opened.map fun o => o.node.bare).reverse
  depth : view.depth = opened.length
  descended : ∀ o ∈ opened, o.verdict = .descend

instance (opened : List Open) (view : View) : Decidable (Fits opened view) :=
  decidable_of_iff (view.path = (opened.map fun o => o.node.bare).reverse ∧
    view.depth = opened.length ∧ ∀ o ∈ opened, o.verdict = .descend)
    ⟨fun ⟨path, depth, descended⟩ => ⟨path, depth, descended⟩,
      fun ⟨path, depth, descended⟩ => ⟨path, depth, descended⟩⟩

/-- A call is an exit call for an open node: the node has its own fields still, and its children too
if it was skipped. -/
structure Open.Closes (o : Open) (c : Call σ) : Prop where
  view : c.view = o.view
  fields : c.node.bare = o.node.bare
  stays : o.verdict.stays
  skipped : o.verdict = .skip → c.node = o.node

instance (o : Open) (c : Call σ) : Decidable (o.Closes c) :=
  decidable_of_iff (c.view = o.view ∧ c.node.bare = o.node.bare ∧ o.verdict.stays ∧
    (o.verdict = .skip → c.node = o.node))
    ⟨fun ⟨view, fields, stays, skipped⟩ => ⟨view, fields, stays, skipped⟩,
      fun ⟨view, fields, stays, skipped⟩ => ⟨view, fields, stays, skipped⟩⟩

/-- What has become of the enter calls so far, by their places: replaced nodes, exited ones with the
places of their exit calls, and open ones. -/
structure Ledger where
  count : Nat := 0
  replaced : List Nat := []
  exited : List (Nat × Nat) := []
  opened : List Open := []

namespace Ledger

def replace (l : Ledger) : Ledger :=
  { l with count := l.count + 1, replaced := l.count :: l.replaced }

def enter (l : Ledger) (o : Open) : Ledger :=
  { l with count := l.count + 1, opened := o :: l.opened }

def exit (l : Ledger) (o : Open) (opened : List Open) : Ledger :=
  { l with count := l.count + 1, exited := (o.place, l.count) :: l.exited, opened }

def record (v : Visitor σ) (l : Ledger) (c : Call σ) : Option Ledger :=
  match c.hook, l.opened with
  | .enter, opened =>
      if ¬ Fits opened c.view then none
      else if (c.entered v).verdict.replaces then some l.replace
      else some (l.enter (c.opening v l.count))
  | .exit, o :: opened => if o.Closes c then some (l.exit o opened) else none
  | .exit, [] => none

def follow (v : Visitor σ) (l : Ledger) (calls : List (Call σ)) : Option Ledger :=
  calls.foldlM (record v) l

variable {l l' : Ledger} {c : Call σ}

theorem follow_cons (c : Call σ) (calls : List (Call σ)) :
    l.follow v (c :: calls) = (l.record v c).bind (follow v · calls) := rfl

theorem follow_one (c : Call σ) : l.follow v [c] = l.record v c := by
  rw [follow_cons]
  cases l.record v c <;> rfl

theorem follow_append (calls calls' : List (Call σ)) :
    l.follow v (calls ++ calls') = (l.follow v calls).bind (follow v · calls') := by
  simp [follow, List.foldlM_append, Option.bind_eq_bind]

theorem record_replace (hook : c.hook = .enter) (fits : Fits l.opened c.view)
    (replaces : (c.entered v).verdict.replaces) : l.record v c = some l.replace := by
  simp only [record, hook, fits, replaces, not_true, if_false, if_true]

theorem record_enter (hook : c.hook = .enter) (fits : Fits l.opened c.view)
    (keeps : (c.entered v).verdict.replaces = false) :
    l.record v c = some (l.enter (c.opening v l.count)) := by
  simp only [record, hook, fits, keeps, not_true, if_false, Bool.false_eq_true]

theorem record_exit (hook : c.hook = .exit) {o : Open} {opened : List Open}
    (top : l.opened = o :: opened) (closes : o.Closes c) :
    l.record v c = some (l.exit o opened) := by
  simp only [record, hook, top, if_pos closes]

theorem record_cases (recorded : l.record v c = some l') :
    (c.hook = .enter ∧ (c.entered v).verdict.replaces ∧ l' = l.replace) ∨
    (c.hook = .enter ∧ (c.entered v).verdict.replaces = false ∧
      l' = l.enter (c.opening v l.count)) ∨
    (c.hook = .exit ∧ ∃ o opened, l.opened = o :: opened ∧ o.Closes c ∧ l' = l.exit o opened) := by
  cases hook : c.hook with
  | enter =>
      simp only [record, hook] at recorded
      split_ifs at recorded with fits replaces
      · cases recorded
        exact .inl ⟨rfl, replaces, rfl⟩
      · cases recorded
        exact .inr (.inl ⟨rfl, by simpa using replaces, rfl⟩)
  | exit =>
      cases top : l.opened with
      | nil => simp [record, hook, top] at recorded
      | cons o opened =>
          simp only [record, hook, top] at recorded
          split_ifs at recorded with closes
          cases recorded
          exact .inr (.inr ⟨rfl, o, opened, rfl, closes, rfl⟩)

end Ledger

/-! ## The calls of a sweep -/

theorem Fits.below {opened : List Open} {view : View} (fits : Fits opened view) {o : Open}
    (descended : o.verdict = .descend) : Fits (o :: opened) (view.below o.node) where
  path := by simp [fits.path]
  depth := by simp [View.below, fits.depth]
  descended := by
    intro o' member
    rcases List.mem_cons.1 member with rfl | member
    · exact descended
    · exact fits.descended o' member

theorem Fits.under {opened : List Open} {view : View} (fits : Fits opened view)
    (overlay : Overlay) : Fits opened (view.under overlay) :=
  ⟨fits.path, fits.depth, fits.descended⟩

/-- What is open when the last call has ended a walk: the ancestors of its node, and after an enter
call the node itself. -/
def Halted (v : Visitor σ) (halt : Halt) (calls : List (Call σ)) (opened : List Open) : Prop :=
  ∃ c, calls.getLast? = some c ∧ c.hook = halt.hook ∧
    match halt.hook with
    | .enter => (c.entered v).verdict = .halt ∧
        ∃ place rest, opened = c.opening v place :: rest ∧ Fits rest c.view
    | .exit => (v.exit c.view c.node c.state).flow = .halt ∧ Fits opened c.view

theorem Halted.prepend {halt : Halt} {calls : List (Call σ)} {opened : List Open}
    (halted : Halted v halt calls opened) (earlier : List (Call σ)) :
    Halted v halt (earlier ++ calls) opened := by
  obtain ⟨c, last, rest⟩ := halted
  exact ⟨c, by simp [List.getLast?_append, last], rest⟩

def Leaves (v : Visitor σ) (calls : List (Call σ)) (run : Run σ) (before after : List Open) :
    Prop :=
  match run.halt with
  | none => after = before
  | some halt => Halted v halt calls after

@[simp] theorem leaves_after {calls : List (Call σ)} {run : Run σ} {nodes : List Node}
    {before after : List Open} :
    Leaves v calls (run.after nodes) before after ↔ Leaves v calls run before after := Iff.rfl

theorem Ledger.follow_later {l l₁ : Ledger} {calls calls' : List (Call σ)} {run : Run σ}
    (first : l.follow v calls = some l₁) (same : l₁.opened = l.opened)
    (later : ∃ l₂, l₁.follow v calls' = some l₂ ∧ Leaves v calls' run l₁.opened l₂.opened) :
    ∃ l₂, l.follow v (calls ++ calls') = some l₂ ∧
      Leaves v (calls ++ calls') run l.opened l₂.opened := by
  obtain ⟨l₂, second, leaves⟩ := later
  refine ⟨l₂, by rw [follow_append, first, Option.bind_some, second], ?_⟩
  rw [same] at leaves
  cases halt : run.halt with
  | none => simpa only [Leaves, halt] using leaves
  | some halt =>
      simp only [Leaves, halt] at leaves ⊢
      exact leaves.prepend calls

namespace Sweep

variable {view : View} {index : Nat} {node : Node} {siblings : List Node} {state : σ}
  {e : Entered σ} {calls : List (Call σ)} {run inner : Run σ} {l : Ledger}

theorem follow_replaced {nodes : List Node} {revisit : Bool} (fits : Fits l.opened view)
    (entered : v.enter view node state = e) (verdict : e.verdict = .replace nodes revisit) :
    l.follow v [⟨.enter, view, node, state⟩] = some l.replace := by
  subst entered
  rw [Ledger.follow_one]
  exact Ledger.record_replace rfl fits (by rw [Call.entered, verdict]; rfl)

theorem follow_inside (fits : Fits l.opened view) (entered : v.enter view node state = e)
    (stays : e.verdict.stays)
    (within : Sweep v (view.below e.node) 0 e.inside e.state calls inner)
    (follows : ∀ {l : Ledger}, Fits l.opened (view.below e.node) →
      ∃ l', l.follow v calls = some l' ∧ Leaves v calls inner l.opened l'.opened) :
    ∃ l', l.follow v (⟨.enter, view, node, state⟩ :: calls) = some l' ∧
      Leaves v calls inner (⟨l.count, view, e.node, e.verdict⟩ :: l.opened) l'.opened := by
  have keeps : e.verdict.replaces = false := Verdict.replaces_of_stays stays
  subst entered
  rw [Ledger.follow_cons,
    Ledger.record_enter (c := ⟨.enter, view, node, state⟩) rfl fits keeps]
  rcases Verdict.descend_or_skip stays with verdict | verdict
  · exact follows (l := l.enter ⟨l.count, view, _, _⟩) (fits.below verdict)
  · have none : (v.enter view node state).inside = [] := by simp [Entered.inside, verdict]
    rw [none] at within
    cases within
    exact ⟨_, rfl, rfl⟩

theorem follow_exit (fits : Fits l.opened view) (entered : v.enter view node state = e)
    (stays : e.verdict.stays)
    (within : Sweep v (view.below e.node) 0 e.inside e.state calls inner)
    (follows : ∀ {l : Ledger}, Fits l.opened (view.below e.node) →
      ∃ l', l.follow v calls = some l' ∧ Leaves v calls inner l.opened l'.opened)
    (goes : inner.halt = none) :
    ∃ l', l.follow v (⟨.enter, view, node, state⟩ ::
        (calls ++ [⟨.exit, view, e.refill inner.nodes, inner.state⟩])) = some l' ∧
      l'.opened = l.opened := by
  obtain ⟨l₁, inside, opened⟩ := follow_inside fits entered stays within follows
  simp only [Leaves, goes] at opened
  have closes : Open.Closes (σ := σ) ⟨l.count, view, e.node, e.verdict⟩
      ⟨.exit, view, e.refill inner.nodes, inner.state⟩ := by
    refine ⟨rfl, ?_, stays, ?_⟩
    · rcases Verdict.descend_or_skip stays with verdict | verdict
      · simp [Entered.refill, verdict, Node.bare]
      · simp [Entered.refill, verdict]
    · intro verdict
      have skipped : e.verdict = .skip := verdict
      simp [Entered.refill, skipped]
  refine ⟨l₁.exit ⟨l.count, view, e.node, e.verdict⟩ l.opened, ?_, rfl⟩
  rw [← List.cons_append, Ledger.follow_append, inside, Option.bind_some, Ledger.follow_one,
    Ledger.record_exit rfl opened closes]

theorem follow (sweep : Sweep v view index siblings state calls run)
    (fits : Fits l.opened view) :
    ∃ l', l.follow v calls = some l' ∧ Leaves v calls run l.opened l'.opened := by
  induction sweep generalizing l with
  | nil => exact ⟨l, rfl, rfl⟩
  | context _ goes _ ihWithin ihLater =>
      obtain ⟨l₁, within, same⟩ := ihWithin (fits.under _)
      simp only [Leaves, goes] at same
      exact Ledger.follow_later within same (ihLater (same ▸ fits))
  | contextHalt _ halts ihWithin =>
      obtain ⟨l₁, within, leaves⟩ := ihWithin (fits.under _)
      simp only [Leaves, halts] at leaves
      exact ⟨l₁, within, leaves⟩
  | revisit kind entered verdict _ ihLater =>
      exact Ledger.follow_later (follow_replaced fits entered verdict) rfl (ihLater fits)
  | pass kind entered verdict _ ihLater =>
      exact Ledger.follow_later (follow_replaced fits entered verdict) rfl (ihLater fits)
  | @halt view _ node _ state _ kind entered verdict =>
      subst entered
      have opened := Ledger.record_enter (c := ⟨.enter, view, node, state⟩) rfl fits
        (by rw [Call.entered, verdict]; rfl)
      refine ⟨_, by rw [Ledger.follow_one, opened], ?_⟩
      exact ⟨_, rfl, rfl, verdict, l.count, l.opened, rfl, fits⟩
  | insideHalt kind entered stays within halts ihWithin =>
      obtain ⟨l₁, inside, leaves⟩ := follow_inside fits entered stays within ihWithin
      simp only [Leaves, halts] at leaves
      exact ⟨l₁, inside, leaves.prepend [_]⟩
  | exitHalt kind entered stays within goes exited flow ihWithin =>
      obtain ⟨l₁, closed, same⟩ := follow_exit fits entered stays within ihWithin goes
      subst exited
      refine ⟨l₁, closed, ?_⟩
      exact ⟨_, by rw [← List.cons_append, List.getLast?_concat], rfl, flow, same ▸ fits⟩
  | exit kind entered stays within goes exited flow _ ihWithin ihLater =>
      obtain ⟨l₁, closed, same⟩ := follow_exit fits entered stays within ihWithin goes
      have walked := Ledger.follow_later closed same (ihLater (same ▸ fits))
      simpa only [List.cons_append, List.append_assoc, List.nil_append, leaves_after] using walked

end Sweep

/-! ## The accounts of a ledger -/

def Open.From (v : Visitor σ) (calls : List (Call σ)) (o : Open) : Prop :=
  ∃ c, calls[o.place]? = some c ∧ o = c.opening v o.place

def Paired (v : Visitor σ) (calls : List (Call σ)) (places : Nat × Nat) : Prop :=
  places.1 < places.2 ∧ ∃ c d, calls[places.1]? = some c ∧ calls[places.2]? = some d ∧
    (c.opening v places.1).Closes d

/-- A ledger accounts for a sequence of calls if it has each enter call in exactly one place, as
replaced, as exited or as open, and each exit call with one enter call that it closes. -/
structure Ledger.Accounts (v : Visitor σ) (calls : List (Call σ)) (l : Ledger) : Prop where
  count : l.count = calls.length
  entered : (l.replaced ++ l.exited.map Prod.fst ++ l.opened.map Open.place).Perm
    (calls.findIdxs Call.isEnter)
  exited : (l.exited.map Prod.snd).Perm (calls.findIdxs Call.isExit)
  replaced : l.replaced.Perm (calls.findIdxs (Call.splices v))
  opened : ∀ o ∈ l.opened, o.From v calls
  paired : ∀ places ∈ l.exited, Paired v calls places

section
variable {calls : List (Call σ)}

theorem findIdxs_concat (p : Call σ → Bool) (c : Call σ) :
    (calls ++ [c]).findIdxs p = calls.findIdxs p ++ if p c then [calls.length] else [] := by
  simp [List.findIdxs_append]

theorem getElem?_concat {place : Nat} {c : Call σ} (found : calls[place]? = some c) (d : Call σ) :
    (calls ++ [d])[place]? = some c := by
  obtain ⟨bound, _⟩ := List.getElem?_eq_some_iff.1 found
  rw [List.getElem?_append_left bound, found]

theorem Open.From.concat {o : Open} (h : o.From v calls) (d : Call σ) :
    o.From v (calls ++ [d]) := by
  obtain ⟨c, found, same⟩ := h
  exact ⟨c, getElem?_concat found d, same⟩

theorem Paired.concat {places : Nat × Nat} (h : Paired v calls places) (d : Call σ) :
    Paired v (calls ++ [d]) places := by
  obtain ⟨later, c, c', found, found', closes⟩ := h
  exact ⟨later, c, c', getElem?_concat found d, getElem?_concat found' d, closes⟩

end

namespace Ledger.Accounts

variable {l : Ledger} {calls : List (Call σ)} {c : Call σ}

theorem empty : Accounts v [] {} := by
  constructor <;> simp

theorem replace (h : l.Accounts v calls) (hook : c.hook = .enter)
    (replaces : (c.entered v).verdict.replaces) : l.replace.Accounts v (calls ++ [c]) := by
  have enter : c.isEnter := by simp [Call.isEnter, hook]
  have exit : c.isExit = false := by simp [Call.isExit, hook]
  have splices : c.splices v := by simp [Call.splices, enter, replaces]
  constructor
  · simp [Ledger.replace, h.count]
  · rw [findIdxs_concat, if_pos enter, ← h.count]
    exact (h.entered.cons l.count).trans (List.perm_append_singleton ..).symm
  · simpa [findIdxs_concat, exit, Ledger.replace] using h.exited
  · rw [findIdxs_concat, if_pos splices, ← h.count]
    exact (h.replaced.cons l.count).trans (List.perm_append_singleton ..).symm
  · intro o member
    exact (h.opened o member).concat c
  · intro places member
    exact (h.paired places member).concat c

theorem enter (h : l.Accounts v calls) (hook : c.hook = .enter)
    (keeps : (c.entered v).verdict.replaces = false) :
    (l.enter (c.opening v l.count)).Accounts v (calls ++ [c]) := by
  have enter : c.isEnter := by simp [Call.isEnter, hook]
  have exit : c.isExit = false := by simp [Call.isExit, hook]
  have splices : c.splices v = false := by simp [Call.splices, keeps]
  constructor
  · simp [Ledger.enter, h.count]
  · rw [findIdxs_concat, if_pos enter, ← h.count]
    exact List.perm_middle.trans
      ((h.entered.cons l.count).trans (List.perm_append_singleton ..).symm)
  · simpa [findIdxs_concat, exit, Ledger.enter] using h.exited
  · simpa [findIdxs_concat, splices, Ledger.enter] using h.replaced
  · intro o member
    rcases List.mem_cons.1 member with rfl | member
    · exact ⟨c, by simp [Call.opening, h.count], rfl⟩
    · exact (h.opened o member).concat c
  · intro places member
    exact (h.paired places member).concat c

theorem exit (h : l.Accounts v calls) (hook : c.hook = .exit) {o : Open} {opened : List Open}
    (top : l.opened = o :: opened) (closes : o.Closes c) :
    (l.exit o opened).Accounts v (calls ++ [c]) := by
  have enter : c.isEnter = false := by simp [Call.isEnter, hook]
  have exit : c.isExit := by simp [Call.isExit, hook]
  have splices : c.splices v = false := by simp [Call.splices, enter]
  have entered := h.entered
  have from' := h.opened
  rw [top] at entered from'
  constructor
  · simp [Ledger.exit, h.count]
  · rw [findIdxs_concat, enter]
    simp only [Bool.false_eq_true, if_false, List.append_nil]
    have moved : (l.replaced ++ o.place :: l.exited.map Prod.fst ++ opened.map Open.place).Perm
        (o.place :: (l.replaced ++ l.exited.map Prod.fst) ++ opened.map Open.place) :=
      List.perm_middle.append_right _
    exact moved.trans (List.perm_middle.symm.trans entered)
  · rw [findIdxs_concat, if_pos exit, ← h.count]
    exact (h.exited.cons l.count).trans (List.perm_append_singleton ..).symm
  · simpa [findIdxs_concat, splices, Ledger.exit] using h.replaced
  · intro o' member
    exact (from' o' (List.mem_cons_of_mem _ member)).concat c
  · intro places member
    rcases List.mem_cons.1 member with rfl | member
    · obtain ⟨d, found, same⟩ := from' o List.mem_cons_self
      obtain ⟨bound, _⟩ := List.getElem?_eq_some_iff.1 found
      exact ⟨h.count ▸ bound, d, c, getElem?_concat found c, by simp [h.count], same ▸ closes⟩
    · exact (h.paired places member).concat c

theorem of_follow (followed : Ledger.follow v {} calls = some l) : l.Accounts v calls := by
  induction calls using List.reverseRecOn generalizing l with
  | nil =>
      cases followed
      exact empty
  | append_singleton calls c ih =>
      rw [follow_append, Option.bind_eq_some_iff] at followed
      obtain ⟨l₁, earlier, last⟩ := followed
      rw [follow_one] at last
      have accounts := ih earlier
      rcases record_cases last with ⟨hook, replaces, rfl⟩ | ⟨hook, keeps, rfl⟩ |
        ⟨hook, o, opened, top, closes, rfl⟩
      · exact accounts.replace hook replaces
      · exact accounts.enter hook keeps
      · exact accounts.exit hook top closes

theorem balance (h : l.Accounts v calls) :
    calls.countP Call.isEnter =
      calls.countP Call.isExit + calls.countP (Call.splices v) + l.opened.length := by
  have entered := h.entered.length_eq
  have exited := h.exited.length_eq
  have replaced := h.replaced.length_eq
  simp only [List.length_append, List.length_map, List.length_findIdxs] at entered exited replaced
  omega

end Ledger.Accounts

/-! ## Walks -/

theorem Fits.root : Fits [] .root := ⟨rfl, rfl, by simp⟩

theorem Halted.length_eq {halt : Halt} {calls : List (Call σ)} {opened : List Open}
    (halted : Halted v halt calls opened) :
    ∃ c, calls.getLast? = some c ∧ c.hook = halt.hook ∧
      opened.length = c.view.depth + if halt.hook = .enter then 1 else 0 := by
  obtain ⟨hook, index⟩ := halt
  obtain ⟨c, last, same, left⟩ := halted
  refine ⟨c, last, same, ?_⟩
  cases hook with
  | enter =>
      obtain ⟨_, place, rest, rfl, fits⟩ := left
      simp [fits.depth]
  | exit => simp [left.2.depth]

/-- The hook calls of every walk are well nested. A ledger takes all of them and accounts for them;
no node is open when the walk is completed, and otherwise the open nodes are the ancestors of the
node of the last call, and this node itself if an enter call ended the walk. -/
theorem walks_bracketed {e : Engine} {nodes : List Node} {state : σ} {calls : List (Call σ)}
    {run : Run σ} (walks : e.Walks v nodes state calls run) :
    (∃ l : Ledger, Ledger.follow v {} calls = some l ∧ l.Accounts v calls ∧
      Leaves v calls run [] l.opened) ∧
    match run.halt with
    | none => calls.countP Call.isEnter =
        calls.countP Call.isExit + calls.countP (Call.splices v)
    | some halt => ∃ c, calls.getLast? = some c ∧ c.hook = halt.hook ∧
        calls.countP Call.isEnter = calls.countP Call.isExit + calls.countP (Call.splices v) +
          (c.view.depth + if halt.hook = .enter then 1 else 0) := by
  obtain ⟨l, followed, leaves⟩ := (Engine.walks_sweep.1 walks).follow (l := {}) Fits.root
  have accounts := Ledger.Accounts.of_follow followed
  refine ⟨⟨l, followed, accounts, leaves⟩, ?_⟩
  have balance := accounts.balance
  cases ended : run.halt with
  | none =>
      simp only [Leaves, ended] at leaves
      rw [balance, leaves]
      rfl
  | some halt =>
      simp only [Leaves, ended] at leaves
      obtain ⟨c, last, hook, open'⟩ := leaves.length_eq
      exact ⟨c, last, hook, by rw [balance, open']⟩

theorem walks_bracketed_stopped_inside :
    let v : Visitor Unit := .ofEnter fun _ node _ => ⟨(), node, [],
      if node.text = "x" then .replace [.comment "y"] else if node.text = "s" then .stop
      else .proceed⟩
    let b : Node := .rule "b" [.comment "s", .comment "z"]
    let a : Node := .rule "a" [.context .empty [.comment "x"], b]
    let inA := View.root.below a
    let inB := inA.below b
    let calls : List (Call Unit) := [⟨.enter, .root, a, ()⟩,
      ⟨.enter, inA.under .empty, .comment "x", ()⟩, ⟨.enter, inA.under .empty, .comment "y", ()⟩,
      ⟨.exit, inA.under .empty, .comment "y", ()⟩, ⟨.enter, inA, b, ()⟩,
      ⟨.enter, inB, .comment "s", ()⟩]
    Engine.recursive.Walks v [a] () calls
        ⟨(), [.rule "a" [.context .empty [.comment "y"], b]], some ⟨.enter, 0⟩⟩ ∧
      (∃ l : Ledger, Ledger.follow v {} calls = some l ∧ l.Accounts v calls ∧
        l.replaced = [1] ∧ l.exited = [(2, 3)] ∧ l.opened.map Open.place = [5, 4, 0]) ∧
      calls.countP Call.isEnter =
        calls.countP Call.isExit + calls.countP (Call.splices v) + (2 + 1) := by
  intro v b a inA inB calls
  have block {selector children} : (Node.rule selector children).kind ≠ .context := by rintro ⟨⟩
  have leaf {text} : (Node.comment text).kind ≠ .context := by rintro ⟨⟩
  have inserted : Sweep v (inA.under .empty) 0 [.comment "y"] () _ ⟨(), [.comment "y"], none⟩ :=
    .exitEmpty leaf rfl rfl rfl rfl rfl .nil
  have replaced : Sweep v (inA.under .empty) 0 [.comment "x"] () _ ⟨(), [.comment "y"], none⟩ :=
    .revisit leaf rfl rfl inserted
  have stops : Sweep v inB 0 [.comment "s", .comment "z"] () _ ⟨(), _, some ⟨.enter, 0⟩⟩ :=
    .halt leaf rfl rfl
  have below : Sweep v inA 1 [b] () _ ⟨(), [b], some ⟨.enter, 0⟩⟩ :=
    .insideHalt block rfl rfl stops rfl
  have sweep : Sweep v .root 0 [a] () calls
      ⟨(), [.rule "a" [.context .empty [.comment "y"], b]], some ⟨.enter, 0⟩⟩ :=
    .insideHalt block rfl rfl (.context replaced rfl below) rfl
  have walks := (Engine.walks_sweep (e := .recursive)).2 sweep
  obtain ⟨⟨l, followed, accounts, -⟩, c, last, -, count⟩ := walks_bracketed walks
  have recorded : (Ledger.follow v {} calls).map
      (fun l => (l.replaced, l.exited, l.opened.map Open.place)) =
        some ([1], [(2, 3)], [5, 4, 0]) := by decide
  rw [followed] at recorded
  obtain ⟨replaced, exited, opened⟩ : l.replaced = [1] ∧ l.exited = [(2, 3)] ∧
      l.opened.map Open.place = [5, 4, 0] := by simpa using recorded
  obtain rfl : ⟨.enter, inB, .comment "s", ()⟩ = c := Option.some_inj.1 last
  exact ⟨walks, ⟨l, followed, accounts, replaced, exited, opened⟩, count⟩

end StyleTree.Walk
