import StyleTree.Walk.Engine

/-!
The arguments of the command. Options may stand before and after the name of the subcommand; an
option that stands on both sides counts where it stands last. They are read from left to right:
the first wrong one, or the first that asks for help or the version, ends the reading.
-/

namespace StyleTree.Command

open Walk (Engine)

inductive Verb where
  | print
  | run
  | check
  deriving DecidableEq

def Verb.ofName? : String → Option Verb
  | "print" => some .print
  | "run" => some .run
  | "check" => some .check
  | _ => none

structure Invocation where
  verb : Verb
  path : String
  engine : Option Engine
  config : Option String
  verbose : Bool
  deriving DecidableEq

inductive Ending where
  | usage
  | help
  | version
  deriving DecidableEq

inductive Opt where
  | config
  | engine
  | verbose
  | help
  | version
  deriving DecidableEq

namespace Opt

def known (level : Option Verb) : List Opt :=
  match level with
  | none => [.config, .verbose, .help, .version]
  | some .run => [.config, .verbose, .engine, .help]
  | some _ => [.config, .verbose, .help]

def long : Opt → String
  | .config => "config"
  | .engine => "engine"
  | .verbose => "verbose"
  | .help => "help"
  | .version => "version"

def short : Opt → Char
  | .config => 'c'
  | .engine => 'e'
  | .verbose => 'v'
  | .help => 'h'
  | .version => 'V'

def takesValue : Opt → Bool
  | .config => true
  | .engine => true
  | _ => false

def ofLong? (level : Option Verb) (name : String) : Option Opt :=
  (known level).find? (·.long = name)

def ofShort? (level : Option Verb) (c : Char) : Option Opt :=
  (known level).find? (·.short = c)

end Opt

structure Given where
  config : Option String := none
  engine : Option Engine := none
  verbose : Bool := false
  path : Option String := none

namespace Given

def flag (g : Given) : Opt → Except Ending Given
  | .verbose => if g.verbose then .error .usage else .ok { g with verbose := true }
  | .help => .error .help
  | .version => .error .version
  | _ => .error .usage

def value (g : Given) (o : Opt) (s : String) : Except Ending Given :=
  match o with
  | .config =>
      if s.isEmpty || g.config.isSome then .error .usage else .ok { g with config := some s }
  | .engine =>
      match Engine.ofName? s with
      | some e => if g.engine.isSome then .error .usage else .ok { g with engine := some e }
      | none => .error .usage
  | _ => .error .usage

def positional (g : Given) (level : Option Verb) (s : String) : Except Ending Given :=
  if level.isNone || s.isEmpty || g.path.isSome then .error .usage
  else .ok { g with path := some s }

end Given

def isOption : List Char → Bool
  | '-' :: _ :: _ => true
  | _ => false

inductive After where
  | nothing
  | valueFor (o : Opt)

def cluster (level : Option Verb) (g : Given) : List Char → Except Ending (Given × After)
  | [] => .ok (g, .nothing)
  | c :: rest =>
      match Opt.ofShort? level c with
      | none => .error .usage
      | some o =>
          if o.takesValue then
            match rest with
            | [] => .ok (g, .valueFor o)
            | '=' :: rest => do return (← g.value o (String.ofList rest), .nothing)
            | rest => do return (← g.value o (String.ofList rest), .nothing)
          else do cluster level (← g.flag o) rest

def longOption (level : Option Verb) (g : Given) (text : List Char) :
    Except Ending (Given × After) :=
  let name := text.takeWhile (· ≠ '=')
  let attached := (text.dropWhile (· ≠ '=')).tail?
  match Opt.ofLong? level (String.ofList name) with
  | none => .error .usage
  | some o =>
      match o.takesValue, attached with
      | true, some s => do return (← g.value o (String.ofList s), .nothing)
      | true, none => .ok (g, .valueFor o)
      | false, some _ => .error .usage
      | false, none => do return (← g.flag o, .nothing)

def positionals (level : Option Verb) (g : Given) : List String → Except Ending Given
  | [] => .ok g
  | s :: rest => do positionals level (← g.positional level s) rest

structure Scanned where
  given : Given
  word : Option String := none
  rest : List String := []

/-- Reads the arguments of one place. `due` is the option whose value comes next. Before a
subcommand, a word that is no option is its name. -/
def scan (level : Option Verb) (g : Given) (due : Option Opt) :
    List String → Except Ending Scanned
  | [] => if due.isSome then .error .usage else .ok { given := g }
  | s :: rest =>
      match due with
      | some o =>
          if isOption s.toList then .error .usage
          else (g.value o s).bind fun g => scan level g none rest
      | none =>
          let next (after : Except Ending (Given × After)) : Except Ending Scanned :=
            match after with
            | .error e => .error e
            | .ok (g, .nothing) => scan level g none rest
            | .ok (g, .valueFor o) => scan level g (some o) rest
          match s.toList with
          | ['-', '-'] => (positionals level g rest).map fun g => { given := g }
          | '-' :: '-' :: text => next (longOption level g text)
          | '-' :: c :: text => next (cluster level g (c :: text))
          | _ =>
              if level.isNone then .ok { given := g, word := some s, rest }
              else (g.positional level s).bind fun g => scan level g none rest

def helpOn : List String → Ending
  | [] => .help
  | ["help"] => .help
  | [name] => if (Verb.ofName? name).isSome then .help else .usage
  | _ => .usage

def parse (args : List String) : Except Ending Invocation := do
  let outer ← scan none {} none args
  match outer.word with
  | none => .error .usage
  | some "help" => .error (helpOn outer.rest)
  | some name =>
      match Verb.ofName? name with
      | none => .error .usage
      | some verb =>
          let inner := (← scan (some verb) {} none outer.rest).given
          match inner.path with
          | none => .error .usage
          | some path =>
              return {
                verb, path
                engine := inner.engine
                config := inner.config.or outer.given.config
                verbose := inner.verbose || outer.given.verbose }

end StyleTree.Command
