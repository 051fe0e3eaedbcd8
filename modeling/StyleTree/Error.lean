import StyleTree.Node.Reader
import StyleTree.Walk.Config

namespace StyleTree

inductive FileError where
  | missing
  | directory
  | notText
  deriving DecidableEq

def FileError.message : FileError → String
  | .missing => "No such file or directory (os error 2)"
  | .directory => "Is a directory (os error 21)"
  | .notText => "stream did not contain valid UTF-8"

inductive Error where
  | tree (f : Json.Failure) (source : String)
  | config (f : Json.Failure) (source : String)
  | zeroDepth
  | unknownEngine (name : String)
  | file (e : FileError)
  | depth (e : Walk.DepthLimit)
  | unfinished

namespace Error

def message : Error → String
  | .tree f source => "Invalid tree JSON: " ++ f.message source.toList
  | .config f source => "JSON error: " ++ f.message source.toList
  | .zeroDepth => "Configuration error: max_depth must be at least 1"
  | .unknownEngine name => "Configuration error: " ++ Walk.Engine.unknownMessage name
  | .file e => "I/O error: " ++ e.message
  | .depth e => e.message
  | .unfinished => "The walk was given up"

end Error

def parseTree (source : String) : Except Error (List Node) :=
  (readTree source.toList).mapError (.tree · source)

def parseConfig (source : String) : Except Error Walk.Config :=
  (Walk.Config.read source.toList).mapError fun
    | .unread f => .config f source
    | .zeroDepth => .zeroDepth

def configOfFile (text : Except FileError String) : Except Error Walk.Config :=
  match text with
  | .error e => .error (.file e)
  | .ok source => parseConfig source

def engineOfName (name : String) : Except Error Walk.Engine :=
  match Walk.Engine.ofName? name with
  | some e => .ok e
  | none => .error (.unknownEngine name)

def finished {σ : Type} (r : Except Walk.DepthLimit (Option (Walk.Run σ))) :
    Except Error (Walk.Run σ) :=
  match r with
  | .error e => .error (.depth e)
  | .ok none => .error .unfinished
  | .ok (some run) => .ok run

end StyleTree
