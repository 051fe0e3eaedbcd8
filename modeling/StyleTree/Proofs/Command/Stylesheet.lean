import StyleTree.Proofs.Command.Check

namespace StyleTree.Command

open Walk (Engine Config Run)

namespace Report

def Fails (r : Report) (p : Problem) : Prop := r.code = 2 ∧ r.stdout = "" ∧ r.problem = some p

def Writes (r : Report) (text : String) : Prop := r.code = 0 ∧ r.stdout = text ∧ r.problem = none

theorem fails_failed (p : Problem) (log : List Notice) : (failed p log).Fails p := ⟨rfl, rfl, rfl⟩

theorem writes_succeeded (text : String) (log : List Notice) : (succeeded text log).Writes text :=
  ⟨rfl, rfl, rfl⟩

end Report

namespace Invocation

variable {i : Invocation} {files : String → Except FileError String} {c : Config}

def engineUnder (i : Invocation) (c : Config) : Engine :=
  (i.engine.or (i.config.map fun _ => c.engine)).getD .iterative

def Refuses (i : Invocation) (c : Config) (nodes : List Node) : Prop :=
  i.engineUnder c = .recursive ∧ TooDeep c nodes

theorem engineUnder_eq (loaded : i.settings files = .ok c) :
    i.engine.getD c.engine = i.engineUnder c := by
  rw [settings] at loaded
  rw [engineUnder]
  cases i.engine with
  | some e => rfl
  | none =>
      cases config : i.config with
      | some path => rfl
      | none =>
          rw [config] at loaded
          cases loaded
          rfl

theorem execute_unset {e : Error} (unset : i.settings files = .error e) :
    i.execute files = .failed .config [] := by
  rw [settings] at unset
  rw [execute]
  cases config : i.config with
  | none =>
      rw [config] at unset
      cases unset
  | some path =>
      simp only [config] at unset
      simp only [unset]

end Invocation

section
variable {c : Config} {nodes : List Node} {run : Run Pass} {engine : Engine}

theorem runPass_tooDeep (log : List Notice) (deep : TooDeep c nodes) :
    (runPass { c with engine := .recursive } nodes log).Fails .depth := by
  obtain ⟨e, refused⟩ := refusal?_recursive deep
  rw [runPass, passWithLog, Pass.run, Config.walk, refused]
  exact Report.fails_failed ..

theorem runPass_writes (log : List Notice) (fits : engine = .iterative ∨ ¬ TooDeep c nodes)
    (ends : engine.walk Pass.visitor (Pass.fuelFor nodes) nodes {} = some run) :
    (runPass { c with engine } nodes log).Writes (toCss run.nodes) := by
  rw [runPass, passWithLog, Pass.run, Config.walk, refusal?_none fits]
  simp only [ends]
  exact Report.writes_succeeded ..

end

namespace Invocation

variable {i : Invocation} {files : String → Except FileError String} {c : Config} {source : String}
  {nodes : List Node} {run : Run Pass}

theorem exists_onTree (loaded : i.settings files = .ok c) (found : files i.path = .ok source)
    (accepted : parseTree source = .ok nodes) :
    ∃ log, i.execute files = i.onTree c nodes log := by
  obtain ⟨log, executed⟩ := exists_onFile loaded
  refine ⟨log, ?_⟩
  simp only [executed, onFile, found, accepted]

theorem execute_print (print : i.verb = .print) (loaded : i.settings files = .ok c)
    (found : files i.path = .ok source) (accepted : parseTree source = .ok nodes) :
    (i.execute files).Writes (toCss nodes) := by
  obtain ⟨log, executed⟩ := exists_onTree loaded found accepted
  rw [executed]
  simp only [onTree, print]
  exact Report.writes_succeeded ..

theorem execute_run (verb : i.verb = .run) (loaded : i.settings files = .ok c)
    (found : files i.path = .ok source) (accepted : parseTree source = .ok nodes)
    (ends : ∀ e : Engine, e.walk Pass.visitor (Pass.fuelFor nodes) nodes {} = some run) :
    i.Refuses c nodes ∧ (i.execute files).Fails .depth ∨
      ¬ i.Refuses c nodes ∧ (i.execute files).Writes (toCss run.nodes) := by
  obtain ⟨log, executed⟩ := exists_onTree loaded found accepted
  rw [executed]
  simp only [onTree, verb, engineUnder_eq loaded]
  by_cases refuses : i.Refuses c nodes
  · rw [refuses.1]
    exact .inl ⟨refuses, runPass_tooDeep log refuses.2⟩
  · have fits : i.engineUnder c = .iterative ∨ ¬ TooDeep c nodes := by
      cases engine : i.engineUnder c with
      | iterative => exact .inl rfl
      | recursive => exact .inr fun deep => refuses ⟨engine, deep⟩
    exact .inr ⟨refuses, runPass_writes log fits (ends _)⟩

theorem stdout_run (verb : i.verb = .run) (loaded : i.settings files = .ok c)
    (found : files i.path = .ok source) (accepted : parseTree source = .ok nodes)
    (ends : ∀ e : Engine, e.walk Pass.visitor (Pass.fuelFor nodes) nodes {} = some run)
    (succeeds : (i.execute files).code = 0) : (i.execute files).stdout = toCss run.nodes := by
  rcases execute_run verb loaded found accepted ends with ⟨-, failed⟩ | ⟨-, wrote⟩
  · cases succeeds.symm.trans failed.1
  · exact wrote.2.1

end Invocation

/-- The commands that write a stylesheet. Any command fails, and writes nothing, if the settings
cannot be loaded, whatever the tree is like, and if the tree cannot be read or parsed. Otherwise the
print command writes the tree as it is. The run command fails exactly if its engine is the recursive
one and the tree is too deep for the settings; else it writes what a fresh pass leaves of the tree,
however the walk ends. So two run commands on the same files that both succeed write the same. -/
theorem execute_stylesheet {args : List String} {files : String → Except FileError String}
    {i : Invocation} (parsed : parse args = .ok i) :
    let report := (execute args files).1
    (∀ e, i.settings files = .error e → report.Fails .config) ∧
    ∀ c, i.settings files = .ok c →
      (∀ e, files i.path = .error e → report.Fails .read) ∧
      ∀ source, files i.path = .ok source →
        (∀ e, parseTree source = .error e → report.Fails .parse) ∧
        ∀ nodes, parseTree source = .ok nodes →
          (i.verb = .print → report.Writes (toCss nodes)) ∧
          (i.verb = .run → ∃ run : Run Pass,
            (∀ (e : Engine) r, (∃ fuel, e.walk Pass.visitor fuel nodes {} = some r) ↔ r = run) ∧
            (report.code = 2 ∧ report.stdout = "" ↔ i.Refuses c nodes) ∧
            (¬ i.Refuses c nodes → report.Writes (toCss run.nodes)) ∧
            ∀ args' i', parse args' = .ok i' → i'.verb = .run → i'.path = i.path →
              i'.config = i.config → report.code = 0 → (execute args' files).1.code = 0 →
                (execute args' files).1.stdout = report.stdout) := by
  intro report
  have executed {args : List String} {i : Invocation} (parsed : parse args = .ok i) :
      (execute args files).1 = i.execute files := by
    simp only [execute, parsed]
  have reported : report = i.execute files := executed parsed
  rw [reported]
  refine ⟨fun e unset => ?_, fun c loaded => ?_⟩
  · rw [Invocation.execute_unset unset]
    exact Report.fails_failed ..
  obtain ⟨log, onFile⟩ := Invocation.exists_onFile loaded
  refine ⟨fun e unread => ?_, fun source found => ⟨fun e unparsed => ?_, fun nodes accepted => ?_⟩⟩
  · simp only [onFile, Invocation.onFile, unread]
    exact Report.fails_failed ..
  · simp only [onFile, Invocation.onFile, found, unparsed]
    exact Report.fails_failed ..
  refine ⟨fun print => Invocation.execute_print print loaded found accepted, fun verb => ?_⟩
  obtain ⟨run, ends⟩ := Pass.exists_run nodes
  have ended (e : Engine) := (ends e).1
  have comesTo := Invocation.execute_run verb loaded found accepted ended
  refine ⟨run, fun e => (ends e).2, ⟨fun failed => ?_, fun refuses => ?_⟩, fun accepts => ?_, ?_⟩
  · rcases comesTo with ⟨refuses, -⟩ | ⟨-, wrote⟩
    · exact refuses
    · cases failed.1.symm.trans wrote.1
  · rcases comesTo with ⟨-, code, stdout, -⟩ | ⟨accepts, -⟩
    · exact ⟨code, stdout⟩
    · exact absurd refuses accepts
  · exact (comesTo.resolve_left fun refused => accepts refused.1).2
  · intro args' i' parsed' verb' path config succeeds succeeds'
    rw [executed parsed'] at succeeds' ⊢
    -- the other command loads the same settings and the same tree
    have loaded' : i'.settings files = .ok c := by rwa [Invocation.settings, config]
    have found' : files i'.path = .ok source := by rwa [path]
    rw [Invocation.stdout_run verb loaded found accepted ended succeeds,
      Invocation.stdout_run verb' loaded' found' accepted ended succeeds']

theorem execute_stylesheet_stopped :
    let files : String → Except FileError String := fun path =>
      if path = "low" then .ok "[\"recursive\",1]"
      else if path = "t" then .ok "[[\"at-root\",[[\"at-rule\",\"@stop-the-walk\"]]]]"
      else .error .missing
    (execute ["run", "-c", "low", "t"] files).1.code = 2 ∧
      (execute ["run", "-c", "low", "-e", "iterative", "t"] files).1.Writes "@stop-the-walk;\n" ∧
      (execute ["-c", "high", "print", "t"] files).1.Fails .config := by
  intro files
  let source := "[[\"at-root\",[[\"at-rule\",\"@stop-the-walk\"]]]]"
  let nodes : List Node := [.atRoot [.atRule "@stop-the-walk" "" []]]
  have found : files "t" = .ok source := by cbv
  have accepted : parseTree source = .ok nodes := by cbv
  have depth : Node.measuredDepth nodes = 2 := by cbv
  refine ⟨?_, ?_, ?_⟩
  · have parsed : parse ["run", "-c", "low", "t"] =
        .ok ⟨.run, "t", none, some "low", false⟩ := rfl
    have loaded : Invocation.settings ⟨.run, "t", none, some "low", false⟩ files =
        .ok ⟨.recursive, some 1⟩ := by cbv
    obtain ⟨-, onTree⟩ := ((execute_stylesheet parsed).2 _ loaded).2 source found
    obtain ⟨_, -, refused, -⟩ := (onTree nodes accepted).2 rfl
    exact (refused.2 ⟨rfl, 1, rfl, by rw [depth]; decide⟩).1
  · have parsed : parse ["run", "-c", "low", "-e", "iterative", "t"] =
        .ok ⟨.run, "t", some .iterative, some "low", false⟩ := rfl
    have loaded : Invocation.settings ⟨.run, "t", some .iterative, some "low", false⟩ files =
        .ok ⟨.recursive, some 1⟩ := by cbv
    obtain ⟨-, onTree⟩ := ((execute_stylesheet parsed).2 _ loaded).2 source found
    obtain ⟨run, ends, -, writes, -⟩ := (onTree nodes accepted).2 rfl
    have walked : run = ⟨⟨2, 0, 0⟩, nodes, some ⟨.enter, 0⟩⟩ :=
      ((ends .iterative _).1 ⟨8, by cbv⟩).symm
    have wrote := writes (by rintro ⟨⟨⟩, -⟩)
    rwa [walked] at wrote
  · have parsed : parse ["-c", "high", "print", "t"] =
        .ok ⟨.print, "t", none, some "high", false⟩ := rfl
    have unset : Invocation.settings ⟨.print, "t", none, some "high", false⟩ files =
        .error (.file .missing) := by cbv
    exact (execute_stylesheet parsed).1 _ unset

end StyleTree.Command
