import StyleTree.Error
import StyleTree.Pass
import StyleTree.Script
import StyleTree.Node.Encode
import StyleTree.Css

namespace StyleTree

open Walk (Config Run)

structure Session where
  tree : List Node := []
  saved : List Node := []
  config : Config := {}
  pass : Pass := {}

namespace Session

inductive Step where
  | load (source : String)
  | set (nodes : List Node)
  | append (nodes : List Node)
  | config (source : String)
  | withEngine (name : String)
  | withMaxDepth (limit : UInt64)
  | pass
  | newPass
  | walk (script : Script)
  | css
  | json
  | depth
  | save
  | swap
  | same
  | reparse

inductive Reply where
  | roots (count : Nat)
  | config (c : Config)
  | passed (run : Run Pass)
  | counts (p : Pass)
  | walked (run : Run Script.Progress)
  | css (text : String)
  | json (text : String)
  | depth (depth roots : Nat)
  | same (equal : Bool)

def replaceTree (s : Session) (nodes : List Node) : Session × Reply :=
  ({ s with tree := nodes }, .roots nodes.length)

def configure (s : Session) (c : Config) : Session × Reply := ({ s with config := c }, .config c)

def step (s : Session) : Step → Except Error (Session × Reply)
  | .load source => do return s.replaceTree (← parseTree source)
  | .set nodes => .ok (s.replaceTree nodes)
  | .append nodes => .ok (s.replaceTree (s.tree ++ nodes))
  | .config source => do return s.configure (← parseConfig source)
  | .withEngine name => do return s.configure { s.config with engine := ← engineOfName name }
  | .withMaxDepth limit => .ok (s.configure { s.config with maxDepth := some limit })
  | .pass => do
      let run ← finished (Pass.run s.config s.tree s.pass)
      return ({ s with tree := run.nodes, pass := run.state }, .passed run)
  | .newPass => .ok ({ s with pass := {} }, .counts {})
  | .walk script => do
      let run ← finished (s.config.walk script.visitor Script.fuel s.tree script.start)
      return ({ s with tree := run.nodes }, .walked run)
  | .css => .ok (s, .css (toCss s.tree))
  | .json => .ok (s, .json (toJson s.tree))
  | .depth => .ok (s, .depth (Node.measuredDepth s.tree) s.tree.length)
  | .save => .ok ({ s with saved := s.tree }, .roots s.tree.length)
  | .swap => .ok ({ s with tree := s.saved, saved := s.tree }, .roots s.saved.length)
  | .same => .ok (s, .same (s.saved = s.tree))
  | .reparse => do
      let nodes ← parseTree (toJson s.tree)
      return ({ s with tree := nodes }, .same (nodes = s.tree))

def run (s : Session) : List Step → List (Except Error Reply)
  | [] => []
  | x :: rest =>
      match s.step x with
      | .ok (s', reply) => .ok reply :: run s' rest
      | .error e => .error e :: run s rest

end Session
end StyleTree
