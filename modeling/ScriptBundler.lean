import ScriptBundler.Json.Document
import ScriptBundler.Main
import ScriptBundler.Proofs.Artefacts
import ScriptBundler.Proofs.AssetNames
import ScriptBundler.Proofs.CachePersistence
import ScriptBundler.Proofs.CanonicalPaths
import ScriptBundler.Proofs.Counting
import ScriptBundler.Proofs.Cutting
import ScriptBundler.Proofs.Literals
import ScriptBundler.Proofs.OperatorStacks
import ScriptBundler.Proofs.Parentheses
import ScriptBundler.Proofs.Rows
import ScriptBundler.Proofs.Substitutions
import ScriptBundler.Proofs.Termination
import ScriptBundler.Proofs.Spans
