import StyleTree.Command.Run

namespace StyleTree

def readFile (path : String) : IO (Except FileError String) := do
  try
    let bytes ← IO.FS.readBinFile path
    return match String.fromUTF8? bytes with
      | some text => .ok text
      | none => .error .notText
  catch
    | .noFileOrDirectory .. => return .error .missing
    | _ => return .error .directory

def messageOf (p : Command.Problem) (i : Option Command.Invocation) : String :=
  match p, i with
  | .config, some i => "Failed to load config from " ++ i.config.getD ""
  | .read, some i => "Failed to read " ++ i.path
  | .parse, some i => "Failed to parse " ++ i.path
  | .depth, _ => "Tree too deep"
  | _, _ => Command.usage

end StyleTree

def main (args : List String) : IO UInt32 := do
  let invocation := (StyleTree.Command.parse args).toOption
  let paths := (invocation.map fun i => i.config.toList ++ [i.path]).getD []
  let contents ← paths.mapM fun path => return (path, ← StyleTree.readFile path)
  let files (path : String) : Except StyleTree.FileError String :=
    (contents.lookup path).getD (.error .missing)
  let (report, log) := StyleTree.Command.execute args files
  let err ← IO.getStderr
  for line in log do
    err.putStrLn line
  if let some p := report.problem then
    err.putStrLn ("ERROR " ++ StyleTree.messageOf p invocation)
  IO.print report.stdout
  return report.code.toUInt32
