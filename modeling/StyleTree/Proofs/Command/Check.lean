import StyleTree.Command.Run
import StyleTree.Proofs.Pass.Fuel

namespace StyleTree.Command

open Walk (Engine Config Run)

def Invocation.settings (i : Invocation) (files : String → Except FileError String) :
    Except Error Config :=
  match i.config with
  | none => .ok {}
  | some path => configOfFile (files path)

theorem Invocation.exists_onFile {i : Invocation} {files : String → Except FileError String}
    {c : Config} (loaded : i.settings files = .ok c) :
    ∃ log, i.execute files = i.onFile c (files i.path) log := by
  rw [Invocation.settings] at loaded
  rw [Invocation.execute]
  cases config : i.config with
  | none =>
      rw [config] at loaded
      cases loaded
      exact ⟨[], rfl⟩
  | some path =>
      simp only [config] at loaded
      simp only [loaded]
      exact ⟨_, rfl⟩

def TooDeep (c : Config) (nodes : List Node) : Prop :=
  ∃ limit, c.maxDepth = some limit ∧ limit.toNat < Node.measuredDepth nodes

section
variable {c : Config} {nodes : List Node} {run : Run Pass}

theorem refusal?_recursive (deep : TooDeep c nodes) :
    ∃ e, ({ c with engine := .recursive } : Config).refusal? nodes = some e := by
  obtain ⟨limit, limited, less⟩ := deep
  rw [Config.refusal?, limited]
  exact ⟨_, if_pos less⟩

theorem refusal?_none {engine : Engine} (fits : engine = .iterative ∨ ¬ TooDeep c nodes) :
    ({ c with engine } : Config).refusal? nodes = none := by
  cases engine with
  | iterative => rfl
  | recursive =>
      have fits : ¬ TooDeep c nodes := by simpa using fits
      cases limited : c.maxDepth with
      | none => rfl
      | some limit =>
          have shallow : ¬ limit.toNat < Node.measuredDepth nodes :=
            fun less => fits ⟨limit, limited, less⟩
          exact if_neg shallow

theorem exists_passUnder (engine : Engine)
    (ends : engine.walk Pass.visitor (Pass.fuelFor nodes) nodes {} = some run)
    (fits : engine = .iterative ∨ ¬ TooDeep c nodes) :
    ∃ log, passUnder c engine nodes = .ok (run, log) := by
  rw [passUnder, passWithLog, Pass.run, Config.walk, refusal?_none fits]
  simp only [ends]
  exact ⟨_, rfl⟩

theorem agree_self (run : Run Pass) : agree run run := by simp [agree]

theorem checkPass_tooDeep (log : List Notice) (deep : TooDeep c nodes) :
    (checkPass c nodes log).code = 2 ∧ (checkPass c nodes log).stdout = "" := by
  obtain ⟨e, refused⟩ := refusal?_recursive deep
  rw [checkPass, passUnder, passWithLog, Pass.run, Config.walk, refused]
  exact ⟨rfl, rfl⟩

theorem checkPass_agree (log : List Notice) (fits : ¬ TooDeep c nodes)
    (ends : ∀ e : Engine, e.walk Pass.visitor (Pass.fuelFor nodes) nodes {} = some run) :
    (checkPass c nodes log).code = 0 ∧
      (run.halt = none → (checkPass c nodes log).stdout = "engines agree (Completed)\n") ∧
      (run.halt.isSome → (checkPass c nodes log).stdout = "engines agree (Stopped)\n") := by
  obtain ⟨first, left⟩ := exists_passUnder .recursive (ends .recursive) (.inr fits)
  obtain ⟨second, right⟩ := exists_passUnder .iterative (ends .iterative) (.inr fits)
  rw [checkPass, left]
  simp only [right]
  rw [comparison, if_pos (agree_self run)]
  refine ⟨rfl, fun goes => ?_, fun halts => ?_⟩
  · rw [Run.outcome_completed.2 goes]
    rfl
  · rw [Run.outcome_stopped.2 halts]
    rfl

end

/-- The check command on a tree that is read, with settings that are read. It ends with code 2 and
prints nothing exactly if the tree is too deep for the settings, whatever engine they name.
Otherwise it prints that the engines agree, and whether a fresh pass over the tree is completed or
stopped, which is the same with both engines. -/
theorem execute_check {args : List String} {files : String → Except FileError String}
    {i : Invocation} {c : Config} {source : String} {nodes : List Node}
    (parsed : parse args = .ok i) (check : i.verb = .check) (loaded : i.settings files = .ok c)
    (found : files i.path = .ok source) (accepted : parseTree source = .ok nodes) :
    ∃ run : Run Pass,
      (∀ (e : Engine) r, (∃ fuel, e.walk Pass.visitor fuel nodes {} = some r) ↔ r = run) ∧
      let report := (execute args files).1
      (report.code = 2 ∧ report.stdout = "" ↔ TooDeep c nodes) ∧
      (¬ TooDeep c nodes → report.code = 0 ∧
        (run.halt = none → report.stdout = "engines agree (Completed)\n") ∧
        (run.halt.isSome → report.stdout = "engines agree (Stopped)\n")) ∧
      report.code ≠ 1 := by
  obtain ⟨run, ends⟩ := Pass.exists_run nodes
  obtain ⟨log, executed⟩ := Invocation.exists_onFile loaded
  have reported : (execute args files).1 = checkPass c nodes log := by
    rw [execute, parsed]
    simp only [executed]
    simp only [Invocation.onFile, found, accepted, Invocation.onTree, check]
  refine ⟨run, fun e => (ends e).2, ?_⟩
  rw [reported]
  by_cases deep : TooDeep c nodes
  · have ⟨code, stdout⟩ := checkPass_tooDeep log deep
    refine ⟨⟨fun _ => deep, fun _ => ⟨code, stdout⟩⟩, fun fits => absurd deep fits, ?_⟩
    rw [code]
    decide
  · have ⟨code, stdout⟩ := checkPass_agree log deep fun e => (ends e).1
    refine ⟨⟨fun failed => ?_, fun limited => absurd limited deep⟩, fun _ => ⟨code, stdout⟩, ?_⟩
    · rw [code] at failed
      cases failed.1
    · rw [code]
      decide

theorem execute_check_limits :
    let files : String → Except FileError String := fun path =>
      if path = "low" then .ok "[\"iterative\",1]"
      else if path = "high" then .ok "[\"iterative\",2]"
      else if path = "stops" then .ok "[[\"at-root\",[[\"at-rule\",\"@stop-the-walk\"]]]]"
      else .ok "[[\"rule\",\"a\",[[\"comment\",\"x\"]]]]"
    let limited := (execute ["check", "-c", "low", "stops"] files).1
    let stopped := (execute ["-c", "high", "check", "stops"] files).1
    let completed := (execute ["check", "goes"] files).1
    (limited.code = 2 ∧ limited.stdout = "") ∧
      (stopped.code = 0 ∧ stopped.stdout = "engines agree (Stopped)\n") ∧
      (completed.code = 0 ∧ completed.stdout = "engines agree (Completed)\n") := by
  intro files limited stopped completed
  let stops : List Node := [.atRoot [.atRule "@stop-the-walk" "" []]]
  let goes : List Node := [.rule "a" [.comment "x"]]
  have readStops : parseTree "[[\"at-root\",[[\"at-rule\",\"@stop-the-walk\"]]]]" = .ok stops := by
    cbv
  have readGoes : parseTree "[[\"rule\",\"a\",[[\"comment\",\"x\"]]]]" = .ok goes := by cbv
  have foundStops : files "stops" = .ok "[[\"at-root\",[[\"at-rule\",\"@stop-the-walk\"]]]]" := by
    cbv
  have foundGoes : files "goes" = .ok "[[\"rule\",\"a\",[[\"comment\",\"x\"]]]]" := by cbv
  have depth : Node.measuredDepth stops = 2 := by cbv
  have low : Invocation.settings ⟨.check, "stops", none, some "low", false⟩ files =
      .ok ⟨.iterative, some 1⟩ := by cbv
  have high : Invocation.settings ⟨.check, "stops", none, some "high", false⟩ files =
      .ok ⟨.iterative, some 2⟩ := by cbv
  refine ⟨?_, ?_, ?_⟩
  · have parsed : parse ["check", "-c", "low", "stops"] =
        .ok ⟨.check, "stops", none, some "low", false⟩ := by cbv
    obtain ⟨_, _, refused, -, -⟩ := execute_check parsed rfl low foundStops readStops
    exact refused.2 ⟨1, rfl, by rw [depth]; decide⟩
  · have parsed : parse ["-c", "high", "check", "stops"] =
        .ok ⟨.check, "stops", none, some "high", false⟩ := by cbv
    obtain ⟨run, ends, -, agreed, -⟩ := execute_check parsed rfl high foundStops readStops
    have fits : ¬ TooDeep ⟨.iterative, some 2⟩ stops := by
      rintro ⟨_, ⟨⟩, less⟩
      rw [depth] at less
      exact absurd less (by decide)
    obtain ⟨code, -, halted⟩ := agreed fits
    obtain rfl : ⟨⟨2, 0, 0⟩, stops, some ⟨.enter, 0⟩⟩ = run := (ends .iterative _).1 ⟨8, by cbv⟩
    exact ⟨code, halted rfl⟩
  · have parsed : parse ["check", "goes"] = .ok ⟨.check, "goes", none, none, false⟩ := by cbv
    obtain ⟨run, ends, -, agreed, -⟩ := execute_check parsed rfl rfl foundGoes readGoes
    have fits : ¬ TooDeep {} goes := by
      rintro ⟨_, ⟨⟩, -⟩
    obtain ⟨code, finished, -⟩ := agreed fits
    obtain rfl : ⟨⟨2, 1, 1⟩, [.rule "a" []], none⟩ = run := (ends .recursive _).1 ⟨8, by cbv⟩
    exact ⟨code, finished rfl⟩

end StyleTree.Command
