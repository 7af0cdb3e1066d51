import TurboScript.Host.Quota
import TurboScript.Mir.Lower
import TurboScript.Mir.Slots
import TurboScript.Mir.Semantics
import TurboScript.Mir.ExprSim
import TurboScript.Mir.ScriptSim
import TurboScript.Mir.WriteBack
import TurboScript.Exprtk.Env
import TurboScript.Exprtk.Eval
import TurboScript.Exprtk.Nodes
import TurboScript.Exprtk.FreeVars
import TurboScript.Exprtk.Interp
import TurboScript.Exprtk.ValueArg
import TurboScript.Exprtk.Monitor
import TurboScript.Exprtk.Throw
import TurboScript.Exprtk.Catch
import TurboScript.Exprtk.Loop
import TurboScript.Exprtk.Scope
import TurboScript.Exprtk.Charge
import TurboScript.Mir.Numeric
import TurboScript.Mir.NumericAgree
import TurboScript.Mir.ClosureAnalysis
import TurboScript.Exprtk.Abort
import TurboScript.Exprtk.Closures
import TurboScript.Lib.QueryTree
import TurboScript.Mir.JitCache
import TurboScript.Mir.Inline
import TurboScript.Mir.Scoping
import TurboScript.Exprtk.Budget
import TurboScript.Host.Handles
import TurboScript.Host.Lifetime
import TurboScript.Host.Cause
import TurboScript.Exprtk.Operands
import TurboScript.Oop.Class
import TurboScript.Oop.Define
import TurboScript.Oop.Cache
import TurboScript.Oop.Kept
import TurboScript.Oop.Abstract
import TurboScript.Mir.Fp
import TurboScript.Mir.Branch
import TurboScript.Mir.Fold
import TurboScript.Exprtk.ParseFold
import TurboScript.Fin.Market
import TurboScript.Fin.Orders
import TurboScript.Fin.Work
import TurboScript.Fin.Books
import TurboScript.Fin.Settlement
import TurboScript.Fin.Life
import TurboScript.Fin.Pending
import TurboScript.Fin.Lifecycle
import TurboScript.Mir.Specialize
import TurboScript.Mir.SpecializeReuse
import TurboScript.Mir.CallPaths
import TurboScript.Mir.CallArgs
import TurboScript.Lib.Lineage
import TurboScript.Oop.Hierarchy
import TurboScript.Lib.Best
import TurboScript.Oop.Layout
import TurboScript.Oop.Overload
import TurboScript.Oop.Resolve
import TurboScript.Oop.Clone
import TurboScript.Lib.Course
import TurboScript.Mir.DefiniteAssignment
import TurboScript.Exprtk.Capture
import TurboScript.Oop.FieldTypes
import TurboScript.Oop.Typed
import TurboScript.Oop.Failure
import TurboScript.Mir.Reload
import TurboScript.Mir.SkipReload
import TurboScript.Exprtk.DecimalText
import TurboScript.Exprtk.Frame
import TurboScript.Exprtk.NodeCopy
import TurboScript.Exprtk.Registration
import TurboScript.Host.Frames
import TurboScript.Exprtk.Index
import TurboScript.Exprtk.IntArith
import TurboScript.Exprtk.Matching
import TurboScript.Exprtk.ValueText
import TurboScript.Regex.Grammar
import TurboScript.Regex.Validator
import TurboScript.Regex.CharClass
import TurboScript.Regex.Language
import TurboScript.Regex.Complete
import TurboScript.Lib.Lexing
import TurboScript.Syntax.Tokens
import TurboScript.Syntax.Lexer
import TurboScript.Syntax.Pieces
import TurboScript.Syntax.Progress
import TurboScript.Syntax.RegexLiteral
import TurboScript.Syntax.IntegerLiteral
import TurboScript.Syntax.Positions
import TurboScript.Exprtk.ValueCopy
import TurboScript.Exprtk.ValueIndependence
import TurboScript.Exprtk.CopyParts
import TurboScript.Exprtk.DeepCopy
import TurboScript.Runtime.Task
import TurboScript.Runtime.TaskIdentity
import TurboScript.Fin.Overdraft
import TurboScript.Fin.Valuation
import TurboScript.Fin.Reconcile
import TurboScript.Lib.Splitting
import TurboScript.Stream.Split
import TurboScript.Stream.SplitAgree
import TurboScript.Exprtk.Validate
import TurboScript.Exprtk.OptionalChain
import TurboScript.Host.ValueCheck
import TurboScript.Host.ValueCheckExact
import TurboScript.Exprtk.AbortJobs
import TurboScript.Runtime.Timer
import TurboScript.Host.ResultStore
import TurboScript.Host.ResultHeld
import TurboScript.Host.ResultOutcome
import TurboScript.Exprtk.Tables
import TurboScript.Fin.BarWindow
import TurboScript.Fin.SplitWindow
import TurboScript.Host.AstUsage
import TurboScript.Regex.Handles
import TurboScript.Exprtk.Codecs
import TurboScript.Exprtk.Resolution
import TurboScript.Regex.Scan
