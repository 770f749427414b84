import ClenshawCode.Demo
import ClenshawCode.Main
import ClenshawCode.Proofs.Recurrence.Unrolled
import ClenshawCode.Proofs.Comment.Block
import ClenshawCode.Proofs.Expansion.Literals
import ClenshawCode.Proofs.Decimal.Fixed
import ClenshawCode.Proofs.Shader.Refinement
import ClenshawCode.Proofs.Program.Recovery
import ClenshawCode.Proofs.Program.Isolation
import ClenshawCode.Proofs.Program.Bounds
import ClenshawCode.Proofs.Program.Range
import ClenshawCode.Proofs.Program.Sufficiency
import ClenshawCode.Proofs.Program.Loaded
import ClenshawCode.Proofs.Json.Record
import ClenshawCode.Proofs.Text.Pattern
import ClenshawCode.Proofs.Yaml.Record
import ClenshawCode.Proofs.Demo
import ClenshawCode.Proofs.Program.Reload
import ClenshawCode.Proofs.Recurrence.Chebyshev
import ClenshawCode.Proofs.Expansion.FullPrecision
import ClenshawCode.Proofs.Expansion.Classification
import ClenshawCode.Proofs.Loaders
import ClenshawCode.Proofs.Shader.Accuracy
import ClenshawCode.Proofs.Comment.Collapse
import ClenshawCode.Proofs.Json.FixedPoint
import ClenshawCode.Proofs.Program.Warnings
import ClenshawCode.Proofs.Program.Notation
