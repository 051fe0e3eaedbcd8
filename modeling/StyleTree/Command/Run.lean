import StyleTree.Command.Arguments
import StyleTree.Error
import StyleTree.Pass
import StyleTree.Css

namespace StyleTree.Command

open Walk (Engine Config Outcome Run)

inductive Level where
  | info
  | debug
  | warn
  deriving DecidableEq

inductive Notice where
  | loaded (path : String) (engine : Engine)
  | walkStarted (engine : Engine) (roots : Nat)
  | walkStopped (engine : Engine) (index : Nat)
  | walkFinished (engine : Engine) (outcome : Outcome)
  | engineFinished (engine : Engine) (outcome : Outcome) (entered : Nat)
  | runFinished (engine : Engine) (outcome : Outcome) (pass : Pass)
  | tooDeep (e : Walk.DepthLimit)
  | disagree (left right : Engine) (leftOutcome rightOutcome : Outcome)

namespace Notice

def level : Notice → Level
  | .runFinished .. => .info
  | .tooDeep _ => .warn
  | .disagree .. => .warn
  | _ => .debug

def field (name value : String) : String := " " ++ name ++ "=" ++ value

def quotedEngine (e : Engine) : String := "\"" ++ e.name ++ "\""

def text : Notice → String
  | .loaded path engine =>
      "DEBUG loaded walk config" ++ field "path" path ++ field "engine" engine.name
  | .walkStarted engine roots =>
      "DEBUG walk started" ++ field "engine" (quotedEngine engine) ++ field "roots" (toString roots)
  | .walkStopped engine index =>
      "DEBUG walk stopped by visitor" ++ field "engine" (quotedEngine engine)
        ++ field "index" (toString index)
  | .walkFinished engine outcome =>
      "DEBUG walk finished" ++ field "engine" (quotedEngine engine) ++ field "outcome" outcome.name
  | .engineFinished engine outcome entered =>
      "DEBUG engine finished" ++ field "engine" engine.name ++ field "outcome" outcome.name
        ++ field "entered" (toString entered)
  | .runFinished engine outcome pass =>
      "INFO walk finished" ++ field "engine" engine.name ++ field "outcome" outcome.name
        ++ field "entered" (toString pass.entered) ++ field "replaced" (toString pass.replaced)
  | .tooDeep e =>
      "WARN tree too deep for the recursive engine" ++ field "depth" (toString e.depth)
        ++ field "limit" (toString e.limit)
  | .disagree left right leftOutcome rightOutcome =>
      "WARN engines disagree" ++ field "left" left.name ++ field "right" right.name
        ++ field "left_outcome" leftOutcome.name ++ field "right_outcome" rightOutcome.name

end Notice

inductive Problem where
  | usage
  | config
  | read
  | parse
  | depth
  | unfinished
  deriving DecidableEq

def Problem.name : Problem → String
  | .usage => "usage"
  | .config => "config"
  | .read => "read"
  | .parse => "parse"
  | .depth => "depth"
  | .unfinished => "unfinished"

structure Report where
  code : Nat
  stdout : String := ""
  problem : Option Problem := none
  log : List Notice := []

namespace Report

def failed (p : Problem) (log : List Notice) : Report := { code := 2, problem := some p, log }

def succeeded (stdout : String) (log : List Notice) : Report := { code := 0, stdout, log }

def shown (r : Report) (verbose : Bool) : List String :=
  (r.log.filter fun n => verbose || n.level ≠ .debug).map Notice.text

end Report

def walkNotices (engine : Engine) (roots : Nat) (run : Run Pass) : List Notice :=
  let stopped := run.halt.toList.filterMap fun h =>
    if h.hook = .enter then some (.walkStopped engine h.index) else none
  .walkStarted engine roots :: (stopped ++ [.walkFinished engine run.outcome])

def passWithLog (c : Config) (nodes : List Node) :
    Except (Problem × List Notice) (Run Pass × List Notice) :=
  match Pass.run c nodes {} with
  | .error e => .error (.depth, [.tooDeep e])
  | .ok none => .error (.unfinished, [])
  | .ok (some run) => .ok (run, walkNotices c.engine nodes.length run)

def runPass (c : Config) (nodes : List Node) (log : List Notice) : Report :=
  match passWithLog c nodes with
  | .error (p, notices) => .failed p (log ++ notices)
  | .ok (run, notices) =>
      .succeeded (toCss run.nodes)
        (log ++ notices ++ [.runFinished c.engine run.outcome run.state])

def passUnder (c : Config) (engine : Engine) (nodes : List Node) :
    Except (Problem × List Notice) (Run Pass × List Notice) :=
  (passWithLog { c with engine } nodes).map fun (run, notices) =>
    (run, notices ++ [.engineFinished engine run.outcome run.state.entered])

def agree (left right : Run Pass) : Bool :=
  left.outcome = right.outcome && left.state = right.state
    && toCss left.nodes = toCss right.nodes

def comparison (left right : Run Pass) (log : List Notice) : Report :=
  if agree left right then
    .succeeded ("engines agree (" ++ left.outcome.name ++ ")\n") log
  else
    { code := 1
      stdout := "--- recursive\n" ++ toCss left.nodes ++ "--- iterative\n" ++ toCss right.nodes
        ++ "\nengines disagree\n"
      log := log ++ [.disagree .recursive .iterative left.outcome right.outcome] }

def checkPass (c : Config) (nodes : List Node) (log : List Notice) : Report :=
  match passUnder c .recursive nodes with
  | .error (p, notices) => .failed p (log ++ notices)
  | .ok (left, first) =>
      match passUnder c .iterative nodes with
      | .error (p, notices) => .failed p (log ++ first ++ notices)
      | .ok (right, second) => comparison left right (log ++ first ++ second)

def Invocation.onTree (i : Invocation) (c : Config) (nodes : List Node) (log : List Notice) :
    Report :=
  match i.verb with
  | .print => .succeeded (toCss nodes) log
  | .run => runPass { c with engine := i.engine.getD c.engine } nodes log
  | .check => checkPass c nodes log

def Invocation.onFile (i : Invocation) (c : Config) (file : Except FileError String)
    (log : List Notice) : Report :=
  match file with
  | .error _ => .failed .read log
  | .ok source =>
      match parseTree source with
      | .error _ => .failed .parse log
      | .ok nodes => i.onTree c nodes log

def Invocation.execute (i : Invocation) (files : String → Except FileError String) : Report :=
  match i.config with
  | none => i.onFile {} (files i.path) []
  | some path =>
      match configOfFile (files path) with
      | .error _ => .failed .config []
      | .ok c => i.onFile c (files i.path) [.loaded path c.engine]

def version : String := "swalk 0.1.0"

def usage : String :=
  "Usage: swalk [OPTIONS] <COMMAND>\n\nCommands:\n  print <PATH>\n  run [-e ENGINE] <PATH>\n" ++
  "  check <PATH>\n\nOptions:\n  -c, --config <CONFIG>\n  -v, --verbose\n"

def execute (args : List String) (files : String → Except FileError String) :
    Report × List String :=
  match parse args with
  | .error .usage => (.failed .usage [], [])
  | .error .help => (.succeeded usage [], [])
  | .error .version => (.succeeded (version ++ "\n") [], [])
  | .ok i =>
      let report := i.execute files
      (report, report.shown i.verbose)

end StyleTree.Command
