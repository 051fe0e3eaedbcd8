import StyleTree.Overlay
import StyleTree.Node.Basic
import StyleTree.Node.Depth
import StyleTree.Node.Encode
import StyleTree.Node.Decode
import StyleTree.Node.Reader
import StyleTree.Css
import StyleTree.Decimal.Double
import StyleTree.Decimal.Shortest
import StyleTree.Text.UpperTable
import StyleTree.Text.Upper
import StyleTree.Text.GlyphTable
import StyleTree.Text.Quoted
import StyleTree.Json.Value
import StyleTree.Json.Fault
import StyleTree.Json.Scan
import StyleTree.Json.Refusal
import StyleTree.Json.Reader
import StyleTree.Json.Writer
import StyleTree.Walk.Siblings
import StyleTree.Walk.Visitor
import StyleTree.Walk.Recursive
import StyleTree.Walk.Machine
import StyleTree.Walk.Engine
import StyleTree.Walk.Config
import StyleTree.Pass
import StyleTree.Script
import StyleTree.Sample
import StyleTree.Error
import StyleTree.Session
import StyleTree.Command.Arguments
import StyleTree.Command.Run
import StyleTree.Main
import StyleTree.Proofs.Walk.Sweep
import StyleTree.Proofs.Walk.Recursion
import StyleTree.Proofs.Walk.Stack
import StyleTree.Proofs.Walk.Frames
import StyleTree.Proofs.Walk.Traced
import StyleTree.Proofs.Walk.Site
import StyleTree.Proofs.Walk.Agreement
import StyleTree.Proofs.Walk.Replacement
import StyleTree.Proofs.Walk.Composition
import StyleTree.Proofs.Walk.Cursor
import StyleTree.Proofs.Walk.Halting
import StyleTree.Proofs.Walk.Bracketing
import StyleTree.Proofs.Walk.Conservation
import StyleTree.Proofs.Walk.Interruption
import StyleTree.Proofs.Walk.Surroundings
import StyleTree.Proofs.Walk.Hiding
import StyleTree.Proofs.Walk.Finished
import StyleTree.Proofs.Walk.Observation
import StyleTree.Proofs.Walk.DepthLimit
import StyleTree.Proofs.Walk.DepthBound
import StyleTree.Proofs.Walk.Nesting
import StyleTree.Proofs.Walk.Fuel
import StyleTree.Proofs.Walk.Weight
import StyleTree.Proofs.Node.Similar
import StyleTree.Proofs.Walk.Neutral
import StyleTree.Proofs.Text.Upper
import StyleTree.Proofs.Pass.Rewrite
import StyleTree.Proofs.Pass.Idempotence
import StyleTree.Proofs.Pass.Fuel
import StyleTree.Proofs.Pass.Bounds
import StyleTree.Proofs.Command.Check
import StyleTree.Proofs.Command.Stylesheet
import StyleTree.Proofs.Css.Wrappers
import StyleTree.Proofs.Css.Layout
import StyleTree.Proofs.Overlay
import StyleTree.Proofs.Json.Grammar
import StyleTree.Proofs.Json.Reading
import StyleTree.Proofs.Json.Writing
import StyleTree.Proofs.Json.Scanners
import StyleTree.Proofs.Json.Spelling
import StyleTree.Proofs.Node.Decoding
import StyleTree.Proofs.Node.Members
import StyleTree.Proofs.Node.Defaults
import StyleTree.Proofs.Node.Roots
import StyleTree.Proofs.Node.Loading
import StyleTree.Proofs.Node.Depth
import StyleTree.Proofs.Node.Saving
import StyleTree.Proofs.Node.Respelling
import StyleTree.Proofs.Walk.Collapse
import StyleTree.Proofs.Json.Wellformed
import StyleTree.Proofs.Node.Levels
import StyleTree.Proofs.Pass.Unmarked
import StyleTree.Proofs.Walk.Chain
import StyleTree.Proofs.Walk.Guarded
import StyleTree.Proofs.Walk.Pieces
import StyleTree.Proofs.Walk.Settings
import StyleTree.Proofs.Node.Release
